import Yappod.Indexing.Update
import Yappod.Lib.Alone

/-!
# The steps of an update

Which steps the programs of an update can take, read off their text.  They change the directories that they have made
themselves, publish the batch they were given or found in a WAL, and install no WAL but that of the batch (`Scope`).
A replay installs none (`replays_updateRecover`).
-/

set_option autoImplicit false

namespace Yappod

/-- What a program may change: the segment directories, the batches it may publish, and the WALs it may install. -/
structure Scope where
  dir : SegmentId → Prop
  batch : List IngestOperation → Prop
  wal : Wal → Prop

/-- The steps of an update within a scope. -/
def Op.Within (t : Scope) : Op → Prop
  | .writeComponent dir _ => t.dir dir
  | .unlinkComponent dir _ => t.dir dir
  | .rmdir dir => t.dir dir
  | .installManifest _ what => ∃ ops, what = .update ops ∧ t.batch ops
  | .installWal w => t.wal w
  | .syncIndexDir .walWrite => ∃ w, t.wal w
  | .lock .compaction => False
  | .unlock .compaction => False
  | .stuck => False
  | _ => True

/-- The answers within a scope: a new directory may be changed, and the batch of a WAL that was found may be
published. -/
def Op.Admits (t : Scope) (o : Op) : Res o → Prop :=
  match o with
  | .mkdtemp _ _ => fun made => ∀ dir, made = some dir → t.dir dir
  | .walLoad => fun found => ∀ w, found = .ok (some w) → t.batch w.operations
  | _ => fun _ => True

/-- The program stays within a scope and returns a value of `Q`. -/
abbrev StaysWithin {α : Type} (t : Scope) (Q : α → Prop) (p : Code α) : Prop :=
  p.Keeps (Op.Within t) (Op.Admits t) Q

/-- The program stays within a scope, whatever it returns. -/
abbrev Stays {α : Type} (t : Scope) (p : Code α) : Prop := StaysWithin t (fun _ => True) p

open Prog (Keeps keeps_pure)

/-- One step that changes nothing of the scope, then the rest. -/
theorem StaysWithin.step {α : Type} {t : Scope} {Q : α → Prop} {o : Op} {f : Res o → Code α} (h : o.Within t)
    (hf : ∀ r, StaysWithin t Q (f r)) : StaysWithin t Q (perform o >>= f) :=
  Keeps.step h fun r _ => hf r

theorem Stays.bind {α β : Type} {t : Scope} {Q : β → Prop} {p : Code α} {f : α → Code β} (hp : Stays t p)
    (hf : ∀ a, StaysWithin t Q (f a)) : StaysWithin t Q (p >>= f) :=
  Keeps.bind hp fun a _ => hf a

theorem stays_pure {α : Type} {t : Scope} {a : α} : Stays t (pure a) := keeps_pure trivial

variable (env : Env) (cfg : Config) {t : Scope}

theorem stays_cleanupSegmentDirs {dirs : List SegmentId} (hdirs : ∀ dir ∈ dirs, t.dir dir) :
    Stays t (cleanupSegmentDirs dirs) := by
  have hall : ∀ dir cs, t.dir dir → Stays t (cleanupSegmentDir.unlinkAll dir cs) := by
    intro dir cs hdir
    induction cs with
    | nil => exact stays_pure
    | cons c cs ih => exact StaysWithin.step (o := .unlinkComponent dir c) hdir fun _ => ih
  induction dirs with
  | nil => exact stays_pure
  | cons dir dirs ih =>
    obtain ⟨hdir, hdirs⟩ := List.forall_mem_cons.mp hdirs
    refine Stays.bind ?_ fun _ => ih hdirs
    exact (hall dir _ hdir).bind fun _ => StaysWithin.step (o := .rmdir dir) hdir fun _ => stays_pure

theorem stays_writeFiles {dir : SegmentId} (hdir : t.dir dir) (files : List (Status × File)) :
    Stays t (writeFiles cfg dir files) := by
  induction files with
  | nil => exact stays_pure
  | cons a files ih =>
    obtain ⟨check, f⟩ := a
    rw [writeFiles]
    split
    · exact stays_pure
    · refine StaysWithin.step (o := .writeComponent dir f) hdir fun status => ?_
      split
      · exact stays_pure
      · split
        · refine StaysWithin.step (o := .readComponent dir .vectors) trivial fun back => ?_
          cases back with
          | none => exact stays_pure
          | some g =>
            dsimp only
            split
            · exact stays_pure
            · exact ih
        · exact ih

theorem stays_segmentSliceWrite {dir : SegmentId} (hdir : t.dir dir) (generation : Nat) (us : List SegmentUnit) :
    Stays t (segmentSliceWrite env cfg dir generation us) := by
  refine (stays_writeFiles cfg hdir _).bind fun status => ?_
  split
  · exact stays_pure
  · refine StaysWithin.step (o := .syncSegment dir) trivial fun synced => ?_
    split <;> exact stays_pure

/-- The directories of a result may be changed. -/
def Written.Within (t : Scope) (w : Written) : Prop := ∀ dir ∈ w.dirs, t.dir dir

theorem stays_writeSlices (kind : SegmentKind) (generation : Nat) (units : List SegmentUnit)
    (i : Nat) (slices : List Slice) {dirs : List SegmentId} (hdirs : ∀ dir ∈ dirs, t.dir dir)
    (ds : List SegmentDescriptor) :
    StaysWithin t (Written.Within t) (writeSlices env cfg kind generation units i slices dirs ds) := by
  induction slices generalizing i dirs ds with
  | nil => exact keeps_pure hdirs
  | cons slice slices ih =>
    rw [writeSlices]
    refine Keeps.step (o := Op.mkdtemp kind generation) trivial fun made hmade => ?_
    cases made with
    | none => exact keeps_pure hdirs
    | some dir =>
      have hdir : t.dir dir := hmade dir rfl
      have hmore : ∀ dir' ∈ dirs ++ [dir], t.dir dir' := List.forall_mem_append.mpr ⟨hdirs, by simpa using hdir⟩
      refine (stays_segmentSliceWrite env cfg hdir generation _).bind fun status => ?_
      split
      · exact keeps_pure hmore
      · exact ih _ hmore _

theorem stays_writeSegments (kind : SegmentKind) (generation : Nat) (units : List SegmentUnit)
    (check : Nat → Status) (fuel : Nat) (slices : List Slice) :
    StaysWithin t (Written.Within t)
      (writeSegments env cfg kind generation units check cleanupSegmentDirs fuel slices) := by
  have hnone : ∀ status, Written.Within t ⟨status, none, [], []⟩ := fun _ _ hdir => absurd hdir List.not_mem_nil
  induction fuel generalizing slices with
  | zero => exact keeps_pure (hnone _)
  | succ fuel ih =>
    rw [writeSegments]
    split
    · exact keeps_pure (hnone _)
    · refine (stays_writeSlices env cfg kind generation units 0 slices (by simp) []).bind fun w hw => ?_
      split
      · exact keeps_pure hw
      · split
        · exact keeps_pure hw
        · refine (stays_cleanupSegmentDirs hw).bind fun _ => ?_
          split
          · exact keeps_pure (hnone _)
          · exact ih _

theorem stays_verifySegments (generation : Nat) (ds : List SegmentDescriptor) :
    Stays t (verifySegments env generation ds) := by
  have hone : ∀ dir cs, Stays t (verifySegmentComponents env generation dir cs) := by
    intro dir cs
    induction cs with
    | nil => exact stays_pure
    | cons c cs ih =>
      refine StaysWithin.step (o := .readComponent dir c.component) trivial fun f => ?_
      cases f with
      | none => exact stays_pure
      | some f =>
        dsimp only
        split
        · exact stays_pure
        · exact ih
  induction ds with
  | nil => exact stays_pure
  | cons d ds ih =>
    refine (hone d.id d.components).bind fun status => ?_
    split
    · exact stays_pure
    · exact ih

theorem stays_updateWalClear (why : WalClear) : Stays t (updateWalClear why) := by
  refine StaysWithin.step (o := .unlinkWal why) trivial fun removed => ?_
  split
  · refine StaysWithin.step (o := .syncIndexDir .walClear) trivial fun synced => ?_
    split <;> exact stays_pure
  · exact stays_pure

theorem stays_manifestLoadForConfig : Stays t (manifestLoadForConfig env cfg) := by
  refine StaysWithin.step (o := .loadManifest) trivial fun r => ?_
  cases r with
  | error e => exact stays_pure
  | ok m =>
    dsimp only
    split <;> exact stays_pure

theorem stays_updateWalWrite {w : Wal} (hw : t.wal w) : Stays t (updateWalWrite w) := by
  refine StaysWithin.step (o := .installWal w) hw fun renamed => ?_
  split
  · refine StaysWithin.step (o := .syncIndexDir .walWrite) ⟨w, hw⟩ fun synced => ?_
    split <;> exact stays_pure
  · exact stays_pure

section Publish

variable {ops : List IngestOperation} (hops : t.batch ops)

include hops

theorem stays_manifestSaveAtomic (m : Manifest) : Stays t (manifestSaveAtomic m (.update ops)) := by
  rw [manifestSaveAtomic]
  split
  · exact stays_pure
  · refine StaysWithin.step (o := .installManifest m (.update ops)) ⟨ops, rfl, hops⟩ fun renamed => ?_
    split
    · refine StaysWithin.step (o := .syncManifestParent) trivial fun synced => ?_
      split <;> exact stays_pure
    · exact stays_pure

theorem stays_manifestPublishIfGeneration (expected : Nat) (m : Manifest) :
    Stays t (manifestPublishIfGeneration expected m (.update ops)) := by
  rw [manifestPublishIfGeneration]
  split
  · exact stays_pure
  · refine StaysWithin.step (o := .lock .manifest) trivial fun locked => ?_
    split
    · refine Stays.bind ?_ fun status =>
        StaysWithin.step (o := .closeManifestLock (status = .ok)) trivial fun closed => ?_
      · refine StaysWithin.step (o := .loadManifest) trivial fun r => ?_
        cases r with
        | error e => exact stays_pure
        | ok current =>
          dsimp only
          split
          · exact stays_pure
          · split
            · exact stays_pure
            · exact stays_manifestSaveAtomic hops _
      · split <;> exact stays_pure
    · exact stays_pure

theorem stays_publishUpdate (m : Manifest) (ds : List SegmentDescriptor) : Stays t (publishUpdate env m ops ds) := by
  refine StaysWithin.step (o := .syncSegments) trivial fun synced => ?_
  split
  · refine (stays_verifySegments env _ ds).bind fun status => ?_
    split
    · exact stays_pure
    · split
      · exact stays_pure
      · exact stays_manifestPublishIfGeneration hops _ _
  · exact stays_pure

theorem stays_applySegments (m : Manifest) (units : List SegmentUnit) (slices : List Slice)
    (walActive preserveWal : Bool) : Stays t (applySegments env cfg m ops units slices walActive preserveWal) := by
  refine (stays_writeSegments env cfg _ _ _ _ _ _).bind fun w hw => ?_
  refine Stays.bind ?_ fun status => ?_
  · split
    · exact stays_pure
    · exact stays_publishUpdate env hops _ _
  · split
    · split
      · exact stays_updateWalClear _
      · exact stays_pure
    · refine (stays_cleanupSegmentDirs hw).bind fun _ => ?_
      split
      · exact (stays_updateWalClear _).bind fun _ => stays_pure
      · exact stays_pure

theorem stays_applySection {writeWal : Bool} (hwal : writeWal = true → ∀ base, t.wal ⟨base, ops⟩) (target : Nat) :
    Stays t (applySection env cfg ops writeWal target) := by
  rw [applySection]
  split
  · exact stays_pure
  · refine StaysWithin.step (o := .loadConfig) trivial fun loaded => ?_
    split
    · refine (stays_manifestLoadForConfig env cfg).bind fun r => ?_
      cases r with
      | error e => exact stays_pure
      | ok m =>
        dsimp only
        split
        · exact stays_pure
        · split
          · exact stays_pure
          · split
            · exact stays_pure
            · refine StaysWithin.step (o := .mkdirSegments) trivial fun made => ?_
              split
              · split
                · exact stays_pure
                · split
                  · rename_i hwrite
                    refine (stays_updateWalWrite (hwal hwrite _)).bind fun status => ?_
                    split
                    · exact stays_pure
                    · exact stays_applySegments env cfg hops _ _ _ _ _
                  · exact stays_applySegments env cfg hops _ _ _ _ _
              · exact stays_pure
    · exact stays_pure

theorem stays_applyOperations {writeWal : Bool} (hwal : writeWal = true → ∀ base, t.wal ⟨base, ops⟩)
    (limit : Nat) (held : Bool) (target : Nat) :
    Stays t (applyOperations env cfg ops limit held writeWal target) := by
  rw [applyOperations]
  split
  · exact stays_pure
  · split
    · exact stays_applySection env cfg hops hwal _
    · refine StaysWithin.step (o := .lock .apply) trivial fun locked => ?_
      split
      · exact (stays_applySection env cfg hops hwal _).bind fun _ =>
          StaysWithin.step (o := .unlock .writer) trivial fun _ => stays_pure
      · exact stays_pure

end Publish

/-- **A recovery stays within the scope of the WAL that it finds.** -/
theorem stays_updateRecover : Stays t (updateRecover env cfg) := by
  have hsection : Stays t (recoverSection env cfg) := by
    refine Keeps.step (o := Op.walLoad) trivial fun r hr => ?_
    split
    · exact stays_pure
    · exact stays_pure
    · rename_i wal
      refine StaysWithin.step (o := .loadConfig) trivial fun loaded => ?_
      split
      · refine (stays_manifestLoadForConfig env cfg).bind fun r => ?_
        cases r with
        | error e => exact stays_pure
        | ok m =>
          dsimp only
          split
          · exact stays_updateWalClear _
          · split
            · exact stays_pure
            · exact stays_applyOperations env cfg (hr wal rfl) (fun h => absurd h (by simp)) _ _ _
      · exact stays_pure
  refine StaysWithin.step (o := .walExists) trivial fun present => ?_
  split
  · refine StaysWithin.step (o := .lock .recover) trivial fun locked => ?_
    split
    · exact hsection.bind fun _ => StaysWithin.step (o := .unlock .writer) trivial fun _ => stays_pure
    · exact stays_pure
  · exact stays_pure

/-- The steps of a replay. -/
def Op.isReplay : Op → Bool
  | .installWal _ => false
  | .syncIndexDir .walWrite => false
  | .lock .compaction => false
  | .unlock .compaction => false
  | .stuck => false
  | _ => true

/-- The program only takes steps of a replay. -/
abbrev Replays {α : Type} (p : Code α) : Prop := p.Uses fun o => o.isReplay = true

/-- **A recovery only takes steps of a replay.** -/
theorem replays_updateRecover : Replays (updateRecover env cfg) := by
  have hstays : Stays ⟨fun _ => True, fun _ => True, fun _ => False⟩ (updateRecover env cfg) :=
    stays_updateRecover env cfg
  refine hstays.uses (fun o r => ?_) fun o ho => ?_
  · cases o <;> simp [Op.Admits]
  · unfold Op.Within at ho
    unfold Op.isReplay
    split <;> simp_all

end Yappod
