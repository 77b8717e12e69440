import LispShell.Proofs.Run.Discipline
import LispShell.Proofs.World.Files

/-! # Stores on record
Where a record holds nothing but stores, and changes of variables, it tells what stands in every
file: what was stored last in its place and what was added since. -/

namespace LispShell

open FileTree (WriteMode)

/-- What stands at a place after texts were stored there one after the other. -/
def FileTree.replay (entry : Option Entry) (stores : List (WriteMode × String)) : Option Entry :=
  stores.foldl (fun found store => store.1.store (Text.encode store.2) found) entry

/-- The first text is stored before the others. -/
theorem FileTree.replay_cons (entry : Option Entry) (store : WriteMode × String)
    (rest : List (WriteMode × String)) :
    replay entry (store :: rest) = replay (store.1.store (Text.encode store.2) entry) rest :=
  rfl

/-- Texts are stored after those before them. -/
theorem FileTree.replay_append (entry : Option Entry) (first second : List (WriteMode × String)) :
    replay entry (first ++ second) = replay (replay entry first) second :=
  List.foldl_append

/-- Whether the effect leaves all files and the working directory alone but for what it stores. -/
def Effect.onlyStores : Effect → Bool
  | .store _ _ _ => true
  | .setVariable _ _ => true
  | .launch _ _ _ _ => false
  | .enter _ => false

namespace World

/-- The texts that effects store in the file at a place, in order. -/
def storesAt (world : World) (place : Place) (effects : List Effect) : List (WriteMode × String) :=
  effects.filterMap fun effect =>
    match effect with
    | .store mode content path =>
      if world.placeOf? path = some place then some (mode, content) else none
    | _ => none

/-- Whether a world is one that stores on record have made of another. -/
structure Replays (start : World) (done : List Effect) (world : World) : Prop where
  /-- Every path names the same place. -/
  placeOf? (path : String) : world.placeOf? path = start.placeOf? path
  /-- The working directory is the same. -/
  workingDirectory : world.workingDirectory = start.workingDirectory
  /-- At every place stands what was stored there. -/
  entry? (place : Place) :
    world.files.entry? place =
      FileTree.replay (start.files.entry? place) (start.storesAt place done)

/-- The texts that one store more leaves in the file at a place. -/
theorem storesAt_concat_store (world : World) (place : Place) (done : List Effect)
    (mode : WriteMode) (content path : String) :
    world.storesAt place (done ++ [.store mode content path]) =
      world.storesAt place done ++
        if world.placeOf? path = some place then [(mode, content)] else [] := by
  rw [storesAt, List.filterMap_append, storesAt]
  split <;> simp_all

/-- A change of a variable stores nothing. -/
theorem storesAt_concat_setVariable (world : World) (place : Place) (done : List Effect)
    (name value : String) :
    world.storesAt place (done ++ [.setVariable name value]) = world.storesAt place done := by
  simp [storesAt]

/-- Nothing is stored yet. -/
theorem Replays.refl (start : World) : start.Replays [] start :=
  ⟨fun _ => rfl, rfl, fun _ => rfl⟩

/-- A text that is stored leaves every path the name of its place. -/
theorem placeOf?_of_writeText {world after : World} {mode : WriteMode} {content path : String}
    (isStored : world.writeText mode content path = .ok after) (other : String) :
    after.placeOf? other = world.placeOf? other := by
  obtain ⟨place, -, sameDirectory, sameNames, isChanged⟩ := writeText_eq_ok isStored
  have keeps (there : Place) :
      FileTree.Keeps (world.files.entry? there) (after.files.entry? there) := by
    rw [isChanged]
    split
    case isTrue isPlace => exact isPlace ▸ FileTree.keeps_store _ _ _
    case isFalse => exact .same _
  rw [placeOf?, placeOf?, textFault?, textFault?, sameDirectory, sameNames,
    FileTree.placeOf?_of_keeps keeps]

variable [OperatingSystem] {start world after : World} {done past : List Effect} {effect : Effect}

/-- One more effect that does no more than store a text or set a variable. -/
theorem Replays.does (replays : start.Replays done world) (does : world.Does past effect after)
    (only : effect.onlyStores = true) : start.Replays (done ++ [effect]) after := by
  cases does with
  | enter | launch => cases only
  | setVariable =>
    refine ⟨replays.placeOf?, replays.workingDirectory, fun place => ?_⟩
    rw [storesAt_concat_setVariable]
    exact replays.entry? place
  | @store mode content path after isStored =>
    obtain ⟨named, names, sameDirectory, -, isChanged⟩ := writeText_eq_ok isStored
    refine ⟨fun other => ?_, sameDirectory.trans replays.workingDirectory, fun place => ?_⟩
    · rw [placeOf?_of_writeText isStored, replays.placeOf?]
    · rw [storesAt_concat_store, ← replays.placeOf?, names, isChanged]
      by_cases isNamed : place = named
      · subst isNamed
        rw [if_pos rfl, if_pos rfl, replays.entry?, FileTree.replay_append]
        rfl
      · rw [if_neg isNamed, if_neg fun same => isNamed (Option.some_inj.mp same).symm,
          List.append_nil, replays.entry?]

end World

namespace FileTree

/-! ## What stands in a file -/

/-- Texts that are stored make no more than a file. -/
theorem isFileOrMissing_replay {entry : Option Entry} (isFile : isFileOrMissing entry = true)
    (stores : List (WriteMode × String)) : isFileOrMissing (replay entry stores) = true := by
  induction stores generalizing entry with
  | nil => exact isFile
  | cons store rest inductionHypothesis =>
    exact inductionHypothesis (WriteMode.isFileOrMissing_store isFile store.1 _)

/-- Texts that are added to a file come after what it holds. -/
theorem replay_extend (old : Bytes) (isProgram : Bool) (added : List String) :
    replay (some (.file old isProgram)) (added.map (.extend, ·)) =
      some (.file (old ++ Text.encode (String.join added)) isProgram) := by
  induction added generalizing old with
  | nil => simp [replay, Text.encode]
  | cons text rest inductionHypothesis =>
    rw [List.map_cons, replay_cons, String.join_cons, Text.encode_append, ← List.append_assoc]
    exact inductionHypothesis (old ++ Text.encode text)

/-- Texts that are added where nothing stands make a file of them. -/
theorem replay_extend_none {added : List String} (someText : added ≠ []) :
    replay none (added.map (.extend, ·)) =
      some (.file (Text.encode (String.join added)) false) := by
  obtain ⟨first, rest, rfl⟩ := List.exists_cons_of_ne_nil someText
  rw [List.map_cons, replay_cons, String.join_cons, Text.encode_append]
  exact replay_extend (Text.encode first) false rest

/-- A text that replaces all before it is what a file starts with from then on. -/
theorem exists_replay_replace {entry : Option Entry} (isFile : isFileOrMissing entry = true)
    (earlier : List (WriteMode × String)) (content : String) (later : List String) :
    ∃ isProgram, replay entry (earlier ++ (.replace, content) :: later.map (.extend, ·)) =
      some (.file (Text.encode (content ++ String.join later)) isProgram) := by
  obtain ⟨isProgram, isReplaced⟩ :=
    WriteMode.exists_store_replace (isFileOrMissing_replay isFile earlier) (Text.encode content)
  refine ⟨isProgram, ?_⟩
  rw [replay_append, replay_cons, isReplaced, replay_extend, Text.encode_append]

end FileTree

end LispShell
