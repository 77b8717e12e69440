/-! # The packaged prelude
The program that every new session evaluates first, unless another is chosen. -/

namespace LispShell.Startup

/-- Aliases for listing files, and helpers for sequences that take lists and atoms alike. The
comments are part of the text; `Token.scan` passes over them. -/
def prelude : String :=
  ";; lishp core prelude
;; Evaluated before the rc file in every new shell.

;; -----------------------
;; Aliases
;; -----------------------
(alias ll ls -l)
(alias la ls -a)

;; -----------------------
;; Sequence helpers
;; Work on lists and on atoms (as character sequences) alike.
;; -----------------------
(defun second (xs) (first (rest xs)))

(defun empty? (xs) (= xs '()))

(defun length (xs)
  (if (empty? xs)
      0
      (+ 1 (length (rest xs)))))

;; Zero-based; tail recursive.
(defun nth (n xs)
  (if (= n 0)
      (first xs)
      (nth (- n 1) (rest xs))))
"

end LispShell.Startup
