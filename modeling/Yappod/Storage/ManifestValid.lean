import Mathlib.Data.Nat.Cast.Basic
import Mathlib.Algebra.Order.BigOperators.Group.List
import Mathlib.Algebra.Order.Group.Nat
import Yappod.Storage.Contents

/-!
# Valid manifests

What the checks of a manifest say (`segmentsCheck_eq_ok`), that the descriptors of written segments
pass them (`describe_valid`), and that every valid manifest is small enough to be saved
(`saveCheck_eq_ok`).
-/

set_option autoImplicit false

namespace Yappod

/-- What is checked of one segment. -/
def SegmentDescriptor.Valid (d : SegmentDescriptor) : Prop :=
  d.components ≠ [] ∧ d.components.length ≤ 8 ∧ componentsCheck [] d.components = .ok

theorem segmentsCheck_eq_ok {seen : List SegmentId} {ds : List SegmentDescriptor} :
    segmentsCheck seen ds = .ok ↔
      (∀ d ∈ ds, d.Valid) ∧ (∀ d ∈ ds, d.id ∉ seen) ∧ (ds.map (·.id)).Nodup := by
  induction ds generalizing seen with
  | nil => simp [segmentsCheck]
  | cons d ds ih =>
    rw [segmentsCheck]
    split
    · rename_i hbad
      refine iff_of_false (by simp) fun h => ?_
      have := h.1 d (List.mem_cons_self ..)
      rcases hbad with hbad | hbad
      · exact this.1 hbad
      · have := this.2.1
        omega
    · rename_i hgood
      rw [not_or, not_lt] at hgood
      rw [Status.next_eq_ok]
      split
      · rename_i hseen
        refine iff_of_false (by simp) fun h => ?_
        exact h.2.1 d (List.mem_cons_self ..) hseen
      · rename_i hseen
        rw [ih]
        simp only [List.forall_mem_cons, List.map_cons, List.nodup_cons, List.mem_append,
          List.mem_singleton, List.mem_map, not_or, not_exists, not_and]
        constructor
        · rintro ⟨h₁, h₂, h₃, h₄⟩
          exact ⟨⟨⟨hgood.1, hgood.2, h₁⟩, h₂⟩, ⟨hseen, fun e he => (h₃ e he).1⟩,
            fun e he => (h₃ e he).2, h₄⟩
        · rintro ⟨⟨h₁, h₂⟩, ⟨-, h₃⟩, h₄, h₅⟩
          exact ⟨h₁.2.2, h₂, fun e he => ⟨h₃ e he, h₄ e he⟩, h₅⟩

theorem manifestValidate_eq_ok {m : Manifest} :
    manifestValidate m = .ok ↔ m.generation ≠ 0 ∧ m.segments.length ≤ maxSegments ∧
      ¬(m.configFingerprint.all (· = 0)) ∧ (∀ d ∈ m.segments, d.Valid) ∧ m.ids.Nodup := by
  unfold manifestValidate
  split
  · rename_i h
    refine iff_of_false (by simp) ?_
    rintro ⟨h₁, h₂, -⟩
    omega
  · rename_i h
    split
    · rename_i h'
      refine iff_of_false (by simp) ?_
      rintro ⟨-, -, h₃, -⟩
      exact h₃ h'
    · rename_i h'
      rw [segmentsCheck_eq_ok]
      simp only [List.not_mem_nil, not_false_eq_true, implies_true, true_and]
      constructor
      · rintro ⟨h₁, h₂⟩
        exact ⟨by omega, by omega, h', h₁, h₂⟩
      · rintro ⟨-, -, -, h₁, h₂⟩
        exact ⟨h₁, h₂⟩

/-- Segments with new names can be added as long as there is room. -/
theorem Manifest.addSegments_eq {m : Manifest} {ds : List SegmentDescriptor}
    (hnew : ∀ d ∈ ds, d.id ∉ m.ids) (hnd : (ds.map (·.id)).Nodup)
    (hlen : m.segments.length + ds.length ≤ maxSegments) :
    m.addSegments ds = .ok { m with segments := m.segments ++ ds } := by
  induction ds generalizing m with
  | nil => simp [addSegments]
  | cons d ds ih =>
    rw [List.map_cons, List.nodup_cons] at hnd
    rw [List.forall_mem_cons] at hnew
    rw [List.length_cons] at hlen
    have hroom : ¬maxSegments ≤ m.segments.length := by omega
    rw [addSegments, addSegment, if_neg hroom, if_neg hnew.1, Except.bind, ih]
    · rw [List.append_assoc]
      rfl
    · intro e he hmem
      rw [ids, List.map_append, List.mem_append] at hmem
      rcases hmem with hmem | hmem
      · exact hnew.2 e he hmem
      · rw [List.map_singleton, List.mem_singleton] at hmem
        exact hnd.1 (hmem ▸ List.mem_map.mpr ⟨e, he, rfl⟩)
    · exact hnd.2
    · simp only [List.length_append, List.length_singleton]
      omega

/-- What `addSegments` does when it succeeds. -/
theorem Manifest.addSegments_eq_ok {m m' : Manifest} {ds : List SegmentDescriptor}
    (h : m.addSegments ds = .ok m') : m' = { m with segments := m.segments ++ ds } := by
  induction ds generalizing m with
  | nil =>
    cases h
    simp
  | cons d ds ih =>
    rw [addSegments, addSegment] at h
    split at h
    · cases h
    · split at h
      · cases h
      · have := ih h
        rw [this]
        simp

/-! ## The descriptors of written segments -/

/-- Components of different kinds and of sufficient size pass the checks. -/
theorem componentsCheck_of_nodup {earlier cs : List ComponentDescriptor}
    (hsize : ∀ c ∈ cs, c.fileBytes ≠ 0 ∧ (c.component ≠ .ann → fileHeaderBytes ≤ c.fileBytes))
    (hlen : earlier.length + cs.length ≤ 8) (hnd : ((earlier ++ cs).map (·.component)).Nodup) :
    componentsCheck earlier cs = .ok := by
  induction cs generalizing earlier with
  | nil => rfl
  | cons c cs ih =>
    rw [List.forall_mem_cons] at hsize
    rw [List.length_cons] at hlen
    have hnew : (earlier.any fun e => e.component = c.component) = false := by
      rw [List.any_eq_false]
      intro e he hec
      rw [decide_eq_true_eq] at hec
      rw [List.map_append, List.nodup_append] at hnd
      exact hnd.2.2 e.component (List.mem_map.mpr ⟨e, he, rfl⟩) c.component (by simp) hec
    have hc : componentCheck earlier c = .ok := by
      rw [componentCheck, if_neg, if_neg (by omega), hnew]
      · rfl
      · rintro (h | ⟨h₁, h₂⟩)
        · exact hsize.1.1 h
        · have := hsize.1.2 h₁
          omega
    rw [componentsCheck, hc, Status.ok_next]
    refine ih hsize.2 ?_ ?_
    · rw [List.length_append, List.length_singleton]
      omega
    · rwa [List.append_assoc]

section Describe

variable {env : Env} {cfg : Config} {id : SegmentId} {generation : Nat} {us : List SegmentUnit}

/-- The components of a slice are all different. -/
theorem nodup_components (id : SegmentId) (generation : Nat) (us : List SegmentUnit) :
    ((describe env cfg id generation us).components.map (·.component)).Nodup := by
  simp only [describe, sliceFiles]
  by_cases hd : unitDocuments us = [] <;> by_cases ht : unitTombstones us = [] <;>
    by_cases hv : cfg.hasVectors = true ∧ unitPassages us ≠ [] <;>
    simp [hd, ht, hv, File.describe, Payload.component, documentsPayload, postingsPayload,
      metadataPayload, vectorsPayload]

theorem File.bytes_pos (f : File) : f.bytes env ≠ 0 ∧
    (f.payload.component ≠ .ann → fileHeaderBytes ≤ f.bytes env) := by
  rw [File.bytes]
  constructor
  · split
    · rename_i h
      cases hp : f.payload with
      | ann entries =>
        have := env.annBytes_pos entries
        simp only [Payload.bytes]
        omega
      | _ => simp [hp, Payload.component] at h
    · simp [fileHeaderBytes]
  · intro h
    rw [if_neg h]
    omega

/-- **The descriptor of a written segment is valid.** -/
theorem describe_valid (id : SegmentId) (generation : Nat) (us : List SegmentUnit) :
    (describe env cfg id generation us).Valid := by
  have hlen : 0 < (describe env cfg id generation us).components.length ∧
      (describe env cfg id generation us).components.length ≤ 8 := by
    simp only [describe, sliceFiles]
    by_cases hd : unitDocuments us = [] <;> by_cases ht : unitTombstones us = [] <;>
      by_cases hv : cfg.hasVectors = true ∧ unitPassages us ≠ [] <;> simp [hd, ht, hv]
  refine ⟨List.ne_nil_of_length_pos hlen.1, hlen.2, componentsCheck_of_nodup ?_ ?_ ?_⟩
  · intro c hc
    obtain ⟨x, -, rfl⟩ := List.mem_map.mp hc
    exact x.2.bytes_pos
  · simpa using hlen.2
  · exact nodup_components id generation us

end Describe

/-! ## The size of a manifest -/

theorem SegmentDescriptor.Valid.size_le {d : SegmentDescriptor} (h : d.Valid) :
    32 + d.id.kind.idBytes + (d.components.map fun c => 56 + c.component.nameBytes).sum ≤ 635 := by
  have hid : d.id.kind.idBytes ≤ 35 := by cases d.id.kind <;> simp [SegmentKind.idBytes]
  have hsum : (d.components.map fun c => 56 + c.component.nameBytes).sum ≤
      d.components.length * 71 := by
    have := List.sum_le_card_nsmul (d.components.map fun c => 56 + c.component.nameBytes) 71 (by
      intro n hn
      obtain ⟨c, -, rfl⟩ := List.mem_map.mp hn
      cases c.component <;> simp [Component.nameBytes])
    simpa using this
  have := h.2.1
  omega

/-- **Every valid manifest can be saved.** -/
theorem saveCheck_eq_ok {m : Manifest} (h : manifestValidate m = .ok) : saveCheck m = .ok := by
  obtain ⟨-, hlen, -, hvalid, -⟩ := manifestValidate_eq_ok.mp h
  have hsize : manifestPayloadSize m ≤ 40 + m.segments.length * 635 := by
    have := List.sum_le_card_nsmul (m.segments.map fun d =>
      32 + d.id.kind.idBytes + (d.components.map fun c => 56 + c.component.nameBytes).sum) 635 (by
      intro n hn
      obtain ⟨d, hd, rfl⟩ := List.mem_map.mp hn
      exact (hvalid d hd).size_le)
    rw [manifestPayloadSize]
    simpa using this
  have hmax : ¬maxManifestBytes - fileHeaderBytes < manifestPayloadSize m := by
    rw [maxSegments] at hlen
    simp only [maxManifestBytes, fileHeaderBytes]
    omega
  rw [saveCheck, h, Status.ok_next, if_neg hmax]

end Yappod
