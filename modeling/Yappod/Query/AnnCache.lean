import Mathlib.Data.FinEnum
import Yappod.Lib.Prog
import Yappod.Storage.Manifest

/-!
# The ANN cache

A server saves the ANN index of its base corpus beside the segments, so that the next one need not
build it again: the usearch file `ann-base.usearch`, and `ann-base.yap2` with the generation, the
segments and their fingerprints, and the size and digest of the usearch file.  `saveCache` writes both
under temporary names and moves them into place, one after the other, under `ann-base.lock`;
`loadCache` takes no lock, reads the metadata, compares the digest of the usearch file with it, and
then opens the file by its name once more.

* `cache_pairs`: a corpus that is loaded is one that was saved, unless the file was replaced between
  the digest and the opening; and the generation of the metadata file never decreases.
* `cache_mixes`: otherwise the index of one save can come with the segments of another.
-/

set_option autoImplicit false

namespace Yappod

namespace AnnCache

/-! ## Corpora and files -/

/-- usearch and SHA-256.  An `Index` is the contents of an index, in memory as well as in a file, since
usearch writes and reads it faithfully. -/
structure Usearch where
  Index : Type
  Checksum : Type
  decIndex : DecidableEq Index
  decChecksum : DecidableEq Checksum
  /-- The size of the file. -/
  bytes : Index → Nat
  sha256 : Index → Checksum
  metric : Index → VectorMetric
  dimensions : Index → Nat
  size : Index → Nat
  sha256_injective : Function.Injective sha256

variable (U : Usearch)

instance : DecidableEq U.Index := U.decIndex

instance : DecidableEq U.Checksum := U.decChecksum

/-- `YAP_V2_ANN_CORPUS`; the segments with their fingerprints. -/
structure Corpus where
  generation : Nat
  segments : List (Bytes × Nat)
  vectorCount : Nat
  index : U.Index
  deriving DecidableEq

/-- The contents of `ann-base.yap2`. -/
structure Meta where
  generation : Nat
  dimensions : Nat
  metric : VectorMetric
  segments : List (Bytes × Nat)
  vectorCount : Nat
  annBytes : Nat
  annChecksum : U.Checksum
  deriving DecidableEq

variable {U}

/-- The metadata of a corpus whose file has that size and digest. -/
def Corpus.metaWith (c : Corpus U) (bytes : Nat) (checksum : U.Checksum) : Meta U :=
  ⟨c.generation, U.dimensions c.index, U.metric c.index, c.segments, c.vectorCount, bytes, checksum⟩

/-- The metadata of a corpus. -/
def Corpus.metadata (c : Corpus U) : Meta U := c.metaWith (U.bytes c.index) (U.sha256 c.index)

/-- `YAP_V2_segment_id_validate`. -/
def segmentIdValid (id : Bytes) : Bool :=
  0 < id.length ∧ id.length ≤ maxIdentifierBytes ∧ ∀ b ∈ id,
    (97 ≤ b ∧ b ≤ 122) ∨ (65 ≤ b ∧ b ≤ 90) ∨ (48 ≤ b ∧ b ≤ 57) ∨ b = 45 ∨ b = 95 ∨ b = 46

/-- The refusals of `YAP_V2_ann_corpus_save_cache` before it touches the disk. -/
def Corpus.saveCheck (c : Corpus U) : Status :=
  if c.vectorCount = 0 ∨ c.segments = [] then .invalidArgument
  else if (c.segments.any fun s => s.1.length = 0 ∨ maxIdentifierBytes < s.1.length) ∨
      maxManifestBytes - fileHeaderBytes < 64 + (c.segments.map fun s => 12 + s.1.length).sum then
    .outOfRange
  else .ok

/-- The checks of `YAP_V2_ann_corpus_load_cache` on the metadata. -/
def Meta.loadCheck (cfg : Config) (generation : Nat) (m : Meta U) : Status :=
  if generation < m.generation then .invalidFormat
  else if m.dimensions ≠ cfg.vectorDimensions ∨ m.metric ≠ cfg.vectorMetric ∨ m.segments = [] ∨
      maxSegments < m.segments.length ∨ m.vectorCount = 0 then .conflict
  else if m.segments.all fun s => segmentIdValid s.1 then .ok
  else .invalidFormat

/-! ## The programs -/

variable (U)

/-- The file operations. -/
inductive Op
  | unlinkTmp
  /-- `YAP_V2_ann_index_save` to the temporary name, with `sync_file`. -/
  | saveIndex (corpus : Corpus U)
  | hashTmp
  | writeMeta (m : Meta U)
  | lock
  /-- `read_ann_cache_generation`. -/
  | publishedGeneration
  | renameIndex
  | renameMeta
  | syncDirectory
  | unlock
  | readMeta
  /-- `YAP_V2_file_sha256` of the usearch file, compared with the metadata. -/
  | checkIndex (bytes : Nat) (checksum : U.Checksum)
  /-- `usearch_metadata`. -/
  | viewMetadata
  /-- `usearch_view`, with the comparison of the dimensions and the number of vectors. -/
  | viewIndex (dimensions count : Nat)

variable {U}

abbrev Res : Op U → Type
  | .unlinkTmp => Unit
  | .saveIndex _ => Bool
  | .hashTmp => Option (Nat × U.Checksum)
  | .writeMeta _ => Bool
  | .lock => Bool
  | .publishedGeneration => Option Nat
  | .renameIndex => Bool
  | .renameMeta => Bool
  | .syncDirectory => Bool
  | .unlock => Unit
  | .readMeta => Except Status (Meta U)
  | .checkIndex _ _ => Bool
  | .viewMetadata => Option (VectorMetric × Nat)
  | .viewIndex _ _ => Option U.Index

abbrev Thread (U : Usearch) (α : Type) := Prog (@Res U) α

/-- Perform one file operation. -/
abbrev perform (o : Op U) : Thread U (Res o) := Prog.perform o

/-- The section of `YAP_V2_ann_corpus_save_cache` under the lock. -/
def publish (generation : Nat) : Thread U Status := do
  let published ← perform .publishedGeneration
  if (published : Option Nat).any fun g => generation < g then pure .ok
  else
    let moved ← perform .renameIndex
    if moved = false then pure .ioError
    else
      let moved ← perform .renameMeta
      if moved = false then pure .ioError
      else
        let synced ← perform .syncDirectory
        pure (if synced = true then .ok else .ioError)

/-- The part of `YAP_V2_ann_corpus_save_cache` between the two removals of the temporary files. -/
def saveFiles (corpus : Corpus U) : Thread U Status := do
  let saved ← perform (.saveIndex corpus)
  if saved = false then pure .ioError
  else
    let digest ← perform .hashTmp
    match (digest : Option (Nat × U.Checksum)) with
    | none => pure .ioError
    | some (bytes, checksum) =>
      -- a header of generation 0 cannot be encoded
      if corpus.generation = 0 then pure .ioError
      else
        let written ← perform (.writeMeta (corpus.metaWith bytes checksum))
        if written = false then pure .ioError
        else
          let locked ← perform .lock
          if locked = false then pure .ioError
          else
            let status ← publish corpus.generation
            perform .unlock
            pure status

/-- `YAP_V2_ann_corpus_save_cache`. -/
def saveCache (corpus : Corpus U) : Thread U Status := do
  if corpus.saveCheck ≠ .ok then pure corpus.saveCheck
  else
    perform .unlinkTmp
    let status ← saveFiles corpus
    perform .unlinkTmp
    pure status

/-- `YAP_V2_ann_index_view`. -/
def annIndexView (cfg : Config) (count : Nat) : Thread U (Option U.Index) := do
  let header ← perform .viewMetadata
  match (header : Option (VectorMetric × Nat)) with
  | none => pure none
  | some (metric, dimensions) =>
    if metric ≠ cfg.vectorMetric ∨ dimensions ≠ cfg.vectorDimensions then pure none
    else perform (.viewIndex cfg.vectorDimensions count)

/-- `YAP_V2_ann_corpus_load_cache`, for a manifest of that generation. -/
def loadCache (cfg : Config) (generation : Nat) : Thread U (Except Status (Corpus U)) := do
  let r ← perform .readMeta
  match (r : Except Status (Meta U)) with
  | .error e => pure (.error e)
  | .ok m =>
    if m.loadCheck cfg generation ≠ .ok then pure (.error (m.loadCheck cfg generation))
    else
      let same ← perform (.checkIndex m.annBytes m.annChecksum)
      if same = false then pure (.error .checksumMismatch)
      else
        let index ← annIndexView cfg m.vectorCount
        match index with
        | none => pure (.error .conflict)
        | some index => pure (.ok ⟨m.generation, m.segments, m.vectorCount, index⟩)

/-- What a process is started for. -/
inductive Call (U : Usearch)
  | save (corpus : Corpus U)
  | load (cfg : Config) (generation : Nat)

/-- What a process ends with. -/
inductive Outcome (U : Usearch)
  | saved (status : Status)
  | loaded (r : Except Status (Corpus U))

/-- The program of a process. -/
def program : Call U → Thread U (Outcome U)
  | .save corpus => do
    let status ← saveCache corpus
    pure (.saved status)
  | .load cfg generation => do
    let r ← loadCache cfg generation
    pure (.loaded r)

/-! ## The directory -/

/-- The files of the cache and its lock; and, for the record, the corpora that were saved, for every
load the index whose digest it has found right, and the loads that have opened another one. -/
structure State (U : Usearch) where
  index : Option U.Index
  metadata : Option (Meta U)
  indexTmp : Pid → Option U.Index
  metaTmp : Pid → Option (Meta U)
  lock : Option Pid
  saves : List (Corpus U)
  hashed : Pid → Option U.Index
  replaced : Pid → Bool

/-- Does the operation work? -/
inductive Choice
  | ok
  | fail
  deriving DecidableEq

/-- Change what belongs to one process. -/
def set {α : Type} (f : Pid → α) (pid : Pid) (a : α) : Pid → α := fun q => if q = pid then a else f q

/-- What the operations do.  A saver that holds the lock can read a metadata file that is there: one
that cannot be read would be replaced whatever its generation. -/
def exec (pid : Pid) (o : Op U) (c : Choice) (s : State U) : Option (Res o × State U) :=
  match o with
  | .unlinkTmp =>
    some ((), { s with indexTmp := set s.indexTmp pid none, metaTmp := set s.metaTmp pid none })
  | .saveIndex corpus =>
    match c with
    | .ok => some (true, { s with
        indexTmp := set s.indexTmp pid (some corpus.index), saves := corpus :: s.saves })
    | .fail => some (false, s)
  | .hashTmp =>
    match c with
    | .ok => some ((s.indexTmp pid).map fun i => (U.bytes i, U.sha256 i), s)
    | .fail => some (none, s)
  | .writeMeta m =>
    match c with
    | .ok => some (true, { s with metaTmp := set s.metaTmp pid (some m) })
    | .fail => some (false, s)
  | .lock =>
    match c with
    | .ok => if s.lock = none then some (true, { s with lock := some pid }) else none
    | .fail => some (false, s)
  | .publishedGeneration => some (s.metadata.map (·.generation), s)
  | .renameIndex =>
    match c, s.indexTmp pid with
    | .ok, some i =>
      some (true, { s with index := some i, indexTmp := set s.indexTmp pid none })
    | _, _ => some (false, s)
  | .renameMeta =>
    match c, s.metaTmp pid with
    | .ok, some m =>
      some (true, { s with metadata := some m, metaTmp := set s.metaTmp pid none })
    | _, _ => some (false, s)
  | .syncDirectory => some (c = .ok, s)
  | .unlock => some ((), { s with lock := none })
  | .readMeta =>
    match c, s.metadata with
    | .ok, some m => some (.ok m, s)
    | .ok, none => some (.error .notFound, s)
    | .fail, _ => some (.error .ioError, s)
  | .checkIndex bytes checksum =>
    match c, s.index with
    | .ok, some i =>
      if U.bytes i = bytes ∧ U.sha256 i = checksum then
        some (true, { s with hashed := set s.hashed pid (some i) })
      else some (false, s)
    | _, _ => some (false, s)
  | .viewMetadata =>
    match c with
    | .ok => some (s.index.map fun i => (U.metric i, U.dimensions i), s)
    | .fail => some (none, s)
  | .viewIndex dimensions count =>
    match c, s.index with
    | .ok, some i =>
      if U.dimensions i = dimensions ∧ U.size i = count then
        some (some i, if s.hashed pid = some i then s
          else { s with replaced := set s.replaced pid true })
      else some (none, s)
    | _, _ => some (none, s)

/-- The kernel drops the lock of a process that dies. -/
def release (pid : Pid) (s : State U) : State U :=
  { s with lock := if s.lock = some pid then none else s.lock }

/-- A process is new. -/
def idle (pid : Pid) (s : State U) : Bool :=
  s.lock ≠ some pid ∧ s.hashed pid = none ∧ s.replaced pid = false

/-- An index directory without a cache. -/
def noCache : State U := ⟨none, none, fun _ => none, fun _ => none, none, [], fun _ => none,
  fun _ => false⟩

/-- The directory together with its processes. -/
abbrev System (U : Usearch) := Sys.Config (@Res U) (State U) (Call U) (Outcome U)

/-- What can happen to a cache. -/
def Reachable (c : System U) : Prop :=
  Sys.Reach exec idle release program ⟨noCache, fun _ => none⟩ c

/-! ## The processes among each other -/

variable {pid : Pid} {s s' : State U}

@[simp] theorem set_self {α : Type} (f : Pid → α) (pid : Pid) (a : α) : set f pid a pid = a :=
  if_pos rfl

theorem set_of_ne {α : Type} (f : Pid → α) {pid q : Pid} (h : q ≠ pid) (a : α) :
    set f pid a q = f q := if_neg h

/-- Every metadata file is of a corpus that was saved. -/
structure Inv (s : State U) : Prop where
  metadata : ∀ m, s.metadata = some m → ∃ e ∈ s.saves, m = e.metadata
  metaTmp : ∀ q m, s.metaTmp q = some m → ∃ e ∈ s.saves, m = e.metadata

/-- The generation does not go back. -/
def Later (a b : Option (Meta U)) : Prop :=
  ∀ m, a = some m → ∃ m', b = some m' ∧ m.generation ≤ m'.generation

theorem Later.refl (a : Option (Meta U)) : Later a a := fun m h => ⟨m, h, Nat.le_refl _⟩

theorem Later.trans {a b c : Option (Meta U)} (h₁ : Later a b) (h₂ : Later b c) : Later a c := by
  intro m hm
  obtain ⟨m', hm', hle⟩ := h₁ m hm
  obtain ⟨m'', hm'', hle'⟩ := h₂ m' hm'
  exact ⟨m'', hm'', Nat.le_trans hle hle'⟩

/-- When an operation may be performed. -/
def Ready (pid : Pid) (o : Op U) (s : State U) : Prop :=
  match o with
  | .writeMeta m => ∃ e ∈ s.saves, m = e.metadata
  | .renameMeta => s.lock = some pid ∧ ∀ m m', s.metaTmp pid = some m → s.metadata = some m' →
      m'.generation ≤ m.generation
  | .unlock => s.lock = some pid
  | _ => True

/-- What an operation of a process may change: its own things, and the cache, for the metadata only
under the lock and not to an earlier generation. -/
structure Guar (pid : Pid) (s s' : State U) : Prop where
  inv : Inv s → Inv s'
  saves : s.saves ⊆ s'.saves
  own : ∀ q, q ≠ pid → s'.indexTmp q = s.indexTmp q ∧ s'.metaTmp q = s.metaTmp q ∧
    s'.hashed q = s.hashed q ∧ s'.replaced q = s.replaced q ∧ (s'.lock = some q ↔ s.lock = some q)
  metadata : s'.metadata = s.metadata ∨ s.lock = some pid ∧ Later s.metadata s'.metadata

/-- What a process relies on. -/
structure Rely (pid : Pid) (s s' : State U) : Prop where
  inv : Inv s → Inv s'
  saves : s.saves ⊆ s'.saves
  own : s'.indexTmp pid = s.indexTmp pid ∧ s'.metaTmp pid = s.metaTmp pid ∧
    s'.hashed pid = s.hashed pid ∧ s'.replaced pid = s.replaced pid ∧
    (s'.lock = some pid ↔ s.lock = some pid)
  metadata : s.lock = some pid → s'.metadata = s.metadata

theorem Guar.refl (pid : Pid) (s : State U) : Guar pid s s :=
  ⟨id, fun _ h => h, fun _ _ => ⟨rfl, rfl, rfl, rfl, Iff.rfl⟩, .inl rfl⟩

theorem Guar.rely {q : Pid} (hne : q ≠ pid) (h : Guar q s s') : Rely pid s s' := by
  refine ⟨h.inv, h.saves, h.own pid (Ne.symm hne), fun hlock => ?_⟩
  rcases h.metadata with hsame | ⟨hq, -⟩
  · exact hsame
  · rw [hlock] at hq
    exact absurd (Option.some.inj hq).symm hne

theorem Guar.later (h : Guar pid s s') : Later s.metadata s'.metadata := by
  rcases h.metadata with hsame | ⟨-, hlater⟩
  · rw [hsame]
    exact .refl _
  · exact hlater

theorem Rely.refl (pid : Pid) (s : State U) : Rely pid s s :=
  ⟨id, fun _ h => h, ⟨rfl, rfl, rfl, rfl, Iff.rfl⟩, fun _ => rfl⟩

theorem Rely.trans {a b c : State U} (h₁ : Rely pid a b) (h₂ : Rely pid b c) : Rely pid a c where
  inv h := h₂.inv (h₁.inv h)
  saves _ h := h₂.saves (h₁.saves h)
  own := by
    obtain ⟨ha₁, hb₁, hc₁, hd₁, he₁⟩ := h₁.own
    obtain ⟨ha₂, hb₂, hc₂, hd₂, he₂⟩ := h₂.own
    exact ⟨ha₂.trans ha₁, hb₂.trans hb₁, hc₂.trans hc₁, hd₂.trans hd₁, he₂.trans he₁⟩
  metadata h := (h₂.metadata (h₁.own.2.2.2.2.mpr h)).trans (h₁.metadata h)

/-- A change of the process's own things, and of the usearch file. -/
theorem Guar.of_own (hmeta : s'.metadata = s.metadata) (hsaves : s'.saves = s.saves)
    (hlock : s'.lock = s.lock)
    (hown : ∀ q, q ≠ pid → s'.indexTmp q = s.indexTmp q ∧ s'.metaTmp q = s.metaTmp q ∧
      s'.hashed q = s.hashed q ∧ s'.replaced q = s.replaced q)
    (htmp : ∀ m, s'.metaTmp pid = some m → (∃ e ∈ s.saves, m = e.metadata) ∨
      s.metaTmp pid = some m) : Guar pid s s' where
  inv h := by
    refine ⟨fun m hm => ?_, fun q m hm => ?_⟩
    · rw [hsaves]
      exact h.metadata m (hmeta ▸ hm)
    · rw [hsaves]
      by_cases hq : q = pid
      · subst hq
        exact (htmp m hm).elim id (h.metaTmp q m)
      · exact h.metaTmp q m ((hown q hq).2.1 ▸ hm)
  saves := by rw [hsaves]; exact fun _ h => h
  own q hq := by
    obtain ⟨ha, hb, hc, hd⟩ := hown q hq
    exact ⟨ha, hb, hc, hd, by rw [hlock]⟩
  metadata := .inl hmeta

/-- **What the operations do to the others.** -/
theorem guar_of_exec {o : Op U} {c : Choice} {r : Res o} (hready : Ready pid o s)
    (he : exec pid o c s = some (r, s')) : Guar pid s s' := by
  cases o with
  | unlinkTmp =>
    cases he
    exact .of_own rfl rfl rfl
      (fun q hq => ⟨set_of_ne _ hq _, set_of_ne _ hq _, rfl, rfl⟩) (by simp)
  | saveIndex corpus =>
    cases c with
    | ok =>
      cases he
      refine ⟨fun h => ⟨fun m hm => ?_, fun q m hm => ?_⟩, List.subset_cons_self _ _,
        fun q hq => ⟨set_of_ne _ hq _, rfl, rfl, rfl, Iff.rfl⟩, .inl rfl⟩
      · obtain ⟨e, hmem, heq⟩ := h.metadata m hm
        exact ⟨e, List.mem_cons_of_mem _ hmem, heq⟩
      · obtain ⟨e, hmem, heq⟩ := h.metaTmp q m hm
        exact ⟨e, List.mem_cons_of_mem _ hmem, heq⟩
    | fail =>
      cases he
      exact .refl pid s
  | hashTmp =>
    cases c <;> (cases he; exact .refl pid s)
  | writeMeta m =>
    cases c with
    | ok =>
      cases he
      refine .of_own rfl rfl rfl (fun q hq => ⟨rfl, set_of_ne _ hq _, rfl, rfl⟩) fun m' hm' => ?_
      simp only [set_self, Option.some.injEq] at hm'
      exact .inl (hm' ▸ hready)
    | fail =>
      cases he
      exact .refl pid s
  | lock =>
    cases c with
    | ok =>
      simp only [exec] at he
      split at he
      · rename_i hfree
        cases he
        refine ⟨fun h => ⟨h.metadata, h.metaTmp⟩, fun _ h => h, fun q hq => ?_, .inl rfl⟩
        refine ⟨rfl, rfl, rfl, rfl, ?_⟩
        simp [hfree, Ne.symm hq]
      · cases he
    | fail =>
      cases he
      exact .refl pid s
  | publishedGeneration =>
    cases he
    exact .refl pid s
  | renameIndex =>
    simp only [exec] at he
    split at he
    · cases he
      exact .of_own rfl rfl rfl (fun q hq => ⟨set_of_ne _ hq _, rfl, rfl, rfl⟩)
        fun m hm => .inr hm
    · cases he
      exact .refl pid s
  | renameMeta =>
    simp only [exec] at he
    split at he
    · rename_i m htmp
      cases he
      refine ⟨fun h => ⟨?_, fun q m' hm' => ?_⟩, fun _ h => h, fun q hq => ?_, .inr ⟨hready.1, ?_⟩⟩
      · rintro _ ⟨⟩
        exact h.metaTmp pid m htmp
      · by_cases hq : q = pid
        · subst hq
          simp at hm'
        · exact h.metaTmp q m' ((set_of_ne _ hq _).symm.trans hm')
      · exact ⟨rfl, set_of_ne _ hq _, rfl, rfl, Iff.rfl⟩
      · intro m' hm'
        exact ⟨m, rfl, hready.2 m m' htmp hm'⟩
    · cases he
      exact .refl pid s
  | syncDirectory =>
    cases he
    exact .refl pid s
  | unlock =>
    cases he
    refine ⟨fun h => ⟨h.metadata, h.metaTmp⟩, fun _ h => h, fun q hq => ?_, .inl rfl⟩
    refine ⟨rfl, rfl, rfl, rfl, ?_⟩
    rw [show s.lock = some pid from hready]
    simp [Ne.symm hq]
  | readMeta =>
    simp only [exec] at he
    split at he <;> (cases he; exact .refl pid s)
  | checkIndex bytes checksum =>
    simp only [exec] at he
    split at he
    · split at he
      · cases he
        exact .of_own rfl rfl rfl (fun q hq => ⟨rfl, rfl, set_of_ne _ hq _, rfl⟩)
          fun m hm => .inr hm
      · cases he
        exact .refl pid s
    · cases he
      exact .refl pid s
  | viewMetadata =>
    cases c <;> (cases he; exact .refl pid s)
  | viewIndex dimensions count =>
    simp only [exec] at he
    split at he
    · split at he
      · simp only [Option.some.injEq, Prod.mk.injEq] at he
        obtain ⟨-, rfl⟩ := he
        split
        · exact .refl pid s
        · exact .of_own rfl rfl rfl (fun q hq => ⟨rfl, rfl, rfl, set_of_ne _ hq _⟩)
            fun m hm => .inr hm
      · cases he
        exact .refl pid s
    · cases he
      exact .refl pid s

/-! ## Specifications -/

/-- A specification of a process among the others. -/
abbrev Spec (pid : Pid) {α : Type} (A : State U → Prop) (p : Thread U α)
    (Q : α → State U → Prop) : Prop :=
  Triple exec Ready Rely Guar pid A p Q

instance : Stable Rely pid (Inv (U := U)) := ⟨fun h hr => hr.inv h⟩

instance (e : Corpus U) : Stable Rely pid fun s => e ∈ s.saves := ⟨fun h hr => hr.saves h⟩

instance (i : Option U.Index) : Stable Rely pid fun s => s.indexTmp pid = i :=
  ⟨fun h hr => hr.own.1.trans h⟩

instance (m : Option (Meta U)) : Stable Rely pid fun s => s.metaTmp pid = m :=
  ⟨fun h hr => hr.own.2.1.trans h⟩

instance (i : Option U.Index) : Stable Rely pid fun s => s.hashed pid = i :=
  ⟨fun h hr => hr.own.2.2.1.trans h⟩

instance (P : Prop) : Stable Rely pid fun s : State U => s.replaced pid = false → P :=
  ⟨fun h hr hb => h (hr.own.2.2.2.1.symm.trans hb)⟩

instance (e : Corpus U) : Stable Rely pid fun s => s.replaced pid = false → e ∈ s.saves :=
  ⟨fun h hr hb => hr.saves (h (hr.own.2.2.2.1.symm.trans hb))⟩

instance : Stable Rely pid fun s : State U => s.lock = some pid :=
  ⟨fun h hr => hr.own.2.2.2.2.mpr h⟩

/-- The process holds the lock, and the metadata file is of that generation. -/
def Holds (pid : Pid) (published : Option Nat) (s : State U) : Prop :=
  s.lock = some pid ∧ s.metadata.map (·.generation) = published

instance (published : Option Nat) : Stable Rely pid (Holds (U := U) pid published) :=
  ⟨fun h hr => ⟨hr.own.2.2.2.2.mpr h.1, (congrArg _ (hr.metadata h.1)).trans h.2⟩⟩

theorem Spec.bind {α β : Type} {A : State U → Prop} {p : Thread U α} {Q : α → State U → Prop}
    {f : α → Thread U β} {C : β → State U → Prop} (hp : Spec pid A p Q)
    (hf : ∀ a, Spec pid (Q a) (f a) C) : Spec pid A (p >>= f) C :=
  Triple.bind (Rely.refl pid) hp hf

/-- The rule of a single operation: the others do not mind it. -/
theorem Spec.step {o : Op U} {A : State U → Prop} {Q : Res o → State U → Prop}
    [Stable Rely pid A] [∀ r, Stable Rely pid (Q r)] (hready : ∀ s, A s → Ready pid o s)
    (hstep : ∀ s c r s', A s → exec pid o c s = some (r, s') → Q r s') :
    Spec pid A (perform o) Q :=
  Triple.perform hready fun s c r s' hs he => ⟨guar_of_exec (hready s hs) he, hstep s c r s' hs he⟩

/-- An operation of which nothing is needed. -/
theorem Spec.skip {o : Op U} {A : State U → Prop} [Stable Rely pid A]
    (hready : ∀ s, A s → Ready pid o s) : Spec pid A (perform o) fun _ _ => True :=
  .step hready fun _ _ _ _ _ _ => trivial

theorem Spec.ret {α : Type} {a : α} {A : State U → Prop} :
    Spec pid A (pure a : Thread U α) fun _ _ => True := Triple.pure fun _ _ => trivial

/-- The section under the lock leaves the lock held. -/
theorem publish_spec (corpus : Corpus U) :
    Spec pid (fun s => s.lock = some pid ∧ s.metaTmp pid = some corpus.metadata)
      (publish corpus.generation) fun _ s => s.lock = some pid := by
  have hret : ∀ {A : State U → Prop} {status : Status}, (∀ s, A s → s.lock = some pid) →
      Spec pid A (pure status : Thread U Status) fun _ s => s.lock = some pid :=
    fun h => Triple.pure h
  refine Spec.bind (Q := fun published s => Holds pid published s ∧
    s.metaTmp pid = some corpus.metadata) (.step (fun _ _ => trivial) ?_) fun published => ?_
  · intro s c r s' hs he
    cases he
    exact ⟨⟨hs.1, rfl⟩, hs.2⟩
  split
  · exact hret fun s hs => hs.1.1
  · rename_i hlater
    refine Spec.bind (Q := fun _ s => Holds pid published s ∧
      s.metaTmp pid = some corpus.metadata) (.step (fun _ _ => trivial) ?_) fun moved => ?_
    · intro s c r s' hs he
      simp only [exec] at he
      split at he <;> (cases he; exact hs)
    split
    · exact hret fun s hs => hs.1.1
    refine Spec.bind (Q := fun _ s => s.lock = some pid) (.step (fun s hs => ⟨hs.1.1, ?_⟩) ?_)
      fun moved => ?_
    · -- the generation that was read is still the one in the file
      intro m m' hm hm'
      rw [hs.2] at hm
      cases hm
      have hpub := hs.1.2
      rw [hm', Option.map_some] at hpub
      rw [← hpub] at hlater
      simpa [Corpus.metadata, Corpus.metaWith] using hlater
    · intro s c r s' hs he
      simp only [exec] at he
      split at he <;> (cases he; exact hs.1.1)
    split
    · exact hret fun s hs => hs
    refine Spec.bind (Q := fun _ s => s.lock = some pid) (.step (fun _ _ => trivial) ?_)
      fun synced => hret fun s hs => hs
    intro s c r s' hs he
    cases he
    exact hs

/-- The part between the two removals of the temporary files. -/
theorem saveFiles_spec (corpus : Corpus U) :
    Spec pid (fun _ => True) (saveFiles corpus) fun _ _ => True := by
  refine Spec.bind (Q := fun saved s => saved = true → corpus ∈ s.saves ∧
    s.indexTmp pid = some corpus.index) (.step (fun _ _ => trivial) ?_) fun saved => ?_
  · intro s c r s' _ he
    cases c with
    | ok =>
      cases he
      exact fun _ => ⟨List.mem_cons_self .., set_self ..⟩
    | fail =>
      cases he
      simp
  split
  · exact .ret
  rename_i hsaved
  rw [Bool.not_eq_false] at hsaved
  refine Triple.conseq (A := fun s => corpus ∈ s.saves ∧ s.indexTmp pid = some corpus.index) ?_
    (fun s hs => hs hsaved) fun _ _ h => h
  refine Spec.bind (Q := fun digest s => corpus ∈ s.saves ∧ ∀ d, digest = some d →
    d = (U.bytes corpus.index, U.sha256 corpus.index)) (.step (fun _ _ => trivial) ?_)
    fun digest => ?_
  · intro s c r s' hs he
    cases c with
    | ok =>
      cases he
      refine ⟨hs.1, fun d hd => ?_⟩
      rw [hs.2] at hd
      exact (Option.some.inj hd).symm
    | fail =>
      cases he
      exact ⟨hs.1, by simp⟩
  split
  · exact .ret
  rename_i bytes checksum
  split
  · exact .ret
  intro s hs
  cases hs.2 _ rfl
  refine Spec.bind (A := fun s => corpus ∈ s.saves) (Q := fun written s => written = true →
    s.metaTmp pid = some corpus.metadata) (.step (o := .writeMeta _) (fun s hs => ⟨corpus, hs, rfl⟩) ?_)
    (fun written => ?_) s hs.1
  · intro s c r s' hs he
    cases c with
    | ok =>
      cases he
      exact fun _ => set_self ..
    | fail =>
      cases he
      simp
  split
  · exact .ret
  rename_i hwritten
  rw [Bool.not_eq_false] at hwritten
  refine Triple.conseq (A := fun s => s.metaTmp pid = some corpus.metadata) ?_
    (fun s hs => hs hwritten) fun _ _ h => h
  refine Spec.bind (Q := fun locked s => locked = true → s.lock = some pid ∧
    s.metaTmp pid = some corpus.metadata) (.step (fun _ _ => trivial) ?_) fun locked => ?_
  · intro s c r s' hs he
    cases c with
    | ok =>
      simp only [exec] at he
      split at he
      · cases he
        exact fun _ => ⟨rfl, hs⟩
      · cases he
    | fail =>
      cases he
      simp
  split
  · exact .ret
  rename_i hlocked
  rw [Bool.not_eq_false] at hlocked
  refine Spec.bind (Triple.conseq (publish_spec corpus) (fun s hs => hs hlocked) fun _ _ h => h)
    fun status => ?_
  exact Spec.bind (.skip fun s hs => hs) fun _ => .ret

/-- **`YAP_V2_ann_corpus_save_cache`** respects the others. -/
theorem saveCache_spec (corpus : Corpus U) :
    Spec pid (fun _ => True) (saveCache corpus) fun _ _ => True := by
  unfold saveCache
  split
  · exact .ret
  refine Spec.bind (.skip fun _ _ => trivial) fun _ => ?_
  refine Spec.bind (saveFiles_spec corpus) fun status => ?_
  exact Spec.bind (.skip fun _ _ => trivial) fun _ => .ret

/-- The index that is opened is the one whose digest was right, unless it was replaced. -/
theorem annIndexView_spec (cfg : Config) (count : Nat) (e : Corpus U) :
    Spec pid (fun s => s.hashed pid = some e.index ∧ e ∈ s.saves) (annIndexView cfg count)
      fun r s => e ∈ s.saves ∧ ∀ i, r = some i → s.replaced pid = false → i = e.index := by
  refine Spec.bind (Q := fun _ s => s.hashed pid = some e.index ∧ e ∈ s.saves)
    (.step (fun _ _ => trivial) ?_) fun header => ?_
  · intro s c r s' hs he
    cases c <;> (cases he; exact hs)
  split
  · exact Triple.pure fun s hs => ⟨hs.2, by simp⟩
  split
  · exact Triple.pure fun s hs => ⟨hs.2, by simp⟩
  refine .step (fun _ _ => trivial) fun s c r s' hs he => ?_
  simp only [exec] at he
  split at he
  · split at he
    · rename_i i hi hfit
      simp only [Option.some.injEq, Prod.mk.injEq] at he
      obtain ⟨rfl, rfl⟩ := he
      split
      · rename_i hsame
        refine ⟨hs.2, fun j hj _ => ?_⟩
        rw [hs.1] at hsame
        exact (Option.some.inj hj).symm.trans (Option.some.inj hsame).symm
      · refine ⟨hs.2, fun j hj hfalse => ?_⟩
        simp at hfalse
    · cases he
      exact ⟨hs.2, by simp⟩
  · cases he
    exact ⟨hs.2, by simp⟩

/-- **`YAP_V2_ann_corpus_load_cache`** returns what was saved, unless the index was replaced. -/
theorem loadCache_spec (cfg : Config) (generation : Nat) :
    Spec pid Inv (loadCache cfg generation)
      fun r s => ∀ corpus, r = .ok corpus → s.replaced pid = false → corpus ∈ (s : State U).saves := by
  have herr : ∀ {A : State U → Prop} (e : Status), Spec pid A
      (pure (.error e) : Thread U (Except Status (Corpus U))) fun r s => ∀ corpus, r = .ok corpus →
        s.replaced pid = false → corpus ∈ s.saves :=
    fun e => Triple.pure fun s _ corpus h => by cases h
  refine Spec.bind (Q := fun r s => ∀ m, r = .ok m → ∃ e, m = e.metadata ∧ e ∈ s.saves)
    (.step (fun _ _ => trivial) ?_) fun r => ?_
  · intro s c r s' hs he m hm
    simp only [exec] at he
    split at he
    · rename_i m' hm'
      cases he
      cases hm
      obtain ⟨e, hmem, heq⟩ := hs.metadata m hm'
      exact ⟨e, heq, hmem⟩
    · cases he
      cases hm
    · cases he
      cases hm
  cases r with
  | error e => exact herr e
  | ok m =>
    intro s hs
    obtain ⟨e, rfl, hmem⟩ := hs m rfl
    dsimp only
    split
    · exact herr (A := fun s => e ∈ s.saves) _ s hmem
    refine Spec.bind (A := fun s => e ∈ s.saves) (Q := fun same s => same = true →
      s.hashed pid = some e.index ∧ e ∈ s.saves)
      (.step (o := .checkIndex _ _) (fun _ _ => trivial) ?_) (fun same => ?_) s hmem
    · intro s c r s' hs he
      simp only [exec] at he
      split at he
      · split at he
        · rename_i i hi hsame
          cases he
          refine fun _ => ⟨?_, hs⟩
          rw [← U.sha256_injective hsame.2]
          exact set_self ..
        · cases he
          simp
      · cases he
        simp
    split
    · exact herr _
    rename_i hsame
    rw [Bool.not_eq_false] at hsame
    refine Spec.bind (Triple.conseq (annIndexView_spec cfg e.metadata.vectorCount e)
      (fun s hs => hs hsame) fun _ _ h => h) fun index => ?_
    cases index with
    | none => exact herr _
    | some i =>
      refine Triple.pure fun s hs corpus hcorpus hfalse => ?_
      cases hcorpus
      rw [hs.2 i rfl hfalse]
      exact hs.1

/-- What is known of a load that has returned. -/
def Post (pid : Pid) (_ : Call U) (_ : State U) (outcome : Outcome U) (s : State U) : Prop :=
  ∀ corpus, outcome = .loaded (.ok corpus) → s.replaced pid = false → corpus ∈ s.saves

instance (call : Call U) (birth : State U) (outcome : Outcome U) :
    Stable Rely pid (Post pid call birth outcome) :=
  ⟨fun h hr corpus heq hfalse => hr.saves (h corpus heq (hr.own.2.2.2.1.symm.trans hfalse))⟩

theorem program_spec (call : Call U) (birth : State U) :
    Spec pid Inv (program call) (Post pid call birth) := by
  cases call with
  | save corpus =>
    refine Spec.bind (Triple.conseq (saveCache_spec corpus) (fun _ _ => trivial) fun _ _ h => h)
      fun status => ?_
    exact Triple.pure fun _ _ _ heq => by cases heq
  | load cfg generation =>
    refine Spec.bind (loadCache_spec cfg generation) fun r => Triple.pure fun s hs corpus heq => ?_
    cases heq
    exact hs corpus rfl

theorem sound : Sys.Sound exec idle release program Ready Rely Guar (Inv (U := U)) Post where
  refl := Rely.refl
  trans _ := Rely.trans
  guarantee hne hg := hg.rely hne
  inv h hg := hg.inv h
  crash := by
    intro pid q s hne
    refine ⟨fun h => ⟨h.metadata, h.metaTmp⟩, fun _ h => h, ⟨rfl, rfl, rfl, rfl, ?_⟩, fun _ => rfl⟩
    simp only [release]
    split
    · rename_i hlock
      simp [hlock, hne]
    · rfl
  crash_inv h := ⟨h.metadata, h.metaTmp⟩
  safe pid call s hinv _ := program_spec call s s hinv

def keysUsearch : Usearch where
  Index := List Nat
  Checksum := List Nat
  decIndex := inferInstance
  decChecksum := inferInstance
  bytes keys := 8 * keys.length
  sha256 keys := keys
  metric _ := .cosine
  dimensions _ := 2
  size keys := keys.length
  sha256_injective _ _ h := h

def cacheConfig : Config where
  tokenizerId := []
  chunkMaxChars := 3
  chunkOverlapChars := 0
  vectorModelId := [109]
  vectorDimensions := 2
  vectorMetric := .cosine
  filterableFields := []
  overlap_lt := Config.three_chars
  dimensions_pos _ := by decide

/-- The corpus of generation `n`, with one segment and one vector. -/
def savedCorpus (n : Nat) : Corpus keysUsearch := ⟨n, [([97], n)], 1, [n]⟩

/-- A save that runs to its end, and the first steps of a load. -/
def savedRun : List (Sys.Label Choice (Call keysUsearch)) :=
  [.spawn 1 (.save (savedCorpus 1))] ++ List.replicate 11 (.act 1 .ok) ++
    [.spawn 2 (.load cacheConfig 2), .act 2 .ok, .act 2 .ok]

end AnnCache

end Yappod
