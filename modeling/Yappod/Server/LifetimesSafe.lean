import Yappod.Server.Holdings

/-!
# Nothing is used after it is freed, and nothing is lost

Each function of the server says what it does to the references of the thread that calls it; so every thread can be followed
from its start, when it holds nothing, to its end, when it holds nothing again.

* `runtime_memory_safe` — no step of any thread, in any interleaving, touches what is free.
* `runtime_memory_freed` — when no thread is running, all that is left can be reached from `state->current`.
-/

set_option autoImplicit false

namespace Yappod

namespace Lifetimes

open RefCount

variable {pid : Pid} {H : List (Ref Kind)} {W : List Raw} {a : Nat} {made : Bool}

/-! ## Giving up references -/

section Release

/-- The files and documents of a segment and the ANN corpus hold no references. -/
theorem refs_of_leaf {o : Object} (ho : o.kind = .segment ∨ o.kind = .ann ∨ o.kind = .documents) : o.refs = [] := by
  cases o <;> first | rfl | simp [Object.kind] at ho

theorem leafRelease_spec (own : Own) {r : Ref Kind} (hleaf : ∀ o : Object, o.kind = r.1 → o.refs = [])
    (hH : own.held.Perm (r :: H)) : Spec pid (Owns pid own) (leafRelease r) fun _ =>
      Owns pid { own with held := H } := by
  refine Spec.bind (release_spec own hH) fun last => Spec.assume fun hkind => ?_
  cases last with
  | none => exact Triple.pure fun _ h => h
  | some o =>
    have hrefs : o.refs = [] := hleaf o (hkind o rfl)
    refine (free_spec _ (.refl _)).conseq (fun _ h => h) fun _ s h => ?_
    simpa [hrefs] using h

theorem leafReleaseEach_spec (k : Kind) (hleaf : ∀ o : Object, o.kind = k → o.refs = []) (as : List Nat) (own : Own)
    (hH : own.held.Perm (as.map (k, ·) ++ H)) : Spec pid (Owns pid own) (leafReleaseEach k as) fun _ =>
      Owns pid { own with held := H } := by
  induction as generalizing own with
  | nil => exact Triple.pure fun _ h => h.perm hH (.refl _)
  | cons a as ih => exact Spec.bind (leafRelease_spec own hleaf hH) fun _ => ih _ (.refl _)

theorem snapshotDestroy_spec (own : Own) {segments : List Nat} (hH : own.held.Perm (segments.map (.documents, ·) ++ H))
    (hW : own.owned.Perm ((a, made) :: W)) : Spec pid (Owns pid own) (snapshotDestroy a segments) fun _ =>
      Owns pid { own with held := H, owned := W } := by
  exact Spec.bind (leafReleaseEach_spec .documents (fun _ ho => refs_of_leaf (.inr (.inr ho))) segments own hH) fun _ =>
    free_spec _ hW

theorem snapshotRelease_spec (own : Own) {p : Option Nat} (hH : own.held.Perm (p.toList.map (.snapshot, ·) ++ H)) :
    Spec pid (Owns pid own) (snapshotRelease p) fun _ => Owns pid { own with held := H } := by
  cases p with
  | none => exact Triple.pure fun _ h => h.perm hH (.refl _)
  | some a =>
    refine Spec.bind (release_spec own hH) fun last => Spec.assume fun hkind => ?_
    cases last with
    | none => exact Triple.pure fun _ h => h
    | some o =>
      have hsnapshot : o.kind = .snapshot := hkind o rfl
      cases o <;> cases hsnapshot
      exact snapshotDestroy_spec _ (.refl _) (.refl _)

theorem managerResourceRelease_spec (own : Own) {p : Option Nat}
    (hH : own.held.Perm (p.toList.map (.manager, ·) ++ H)) :
    Spec pid (Owns pid own) (managerResourceRelease p) fun _ => Owns pid { own with held := H } := by
  cases p with
  | none => exact Triple.pure fun _ h => h.perm hH (.refl _)
  | some m =>
    refine Spec.bind (release_spec own hH) fun last => Spec.assume fun hkind => ?_
    cases last with
    | none => exact Triple.pure fun _ h => h
    | some o =>
      have hmanager : o.kind = .manager := hkind o rfl
      cases o <;> cases hmanager
      exact Spec.bind (snapshotRelease_spec _ (.refl _)) fun _ => free_spec _ (.refl _)

theorem annResourceRelease_spec (own : Own) {p : Option Nat} (hH : own.held.Perm (p.toList.map (.ann, ·) ++ H)) :
    Spec pid (Owns pid own) (annResourceRelease p) fun _ => Owns pid { own with held := H } := by
  cases p with
  | none => exact Triple.pure fun _ h => h.perm hH (.refl _)
  | some a => exact leafRelease_spec own (fun _ ho => refs_of_leaf (.inr (.inl ho))) hH

theorem runtimeClose_spec (own : Own) {f : RuntimeFields} (hH : own.held.Perm (f.refs ++ H)) :
    Spec pid (Owns pid own) (runtimeClose f) fun _ => Owns pid { own with held := H } := by
  have hfields : own.held.Perm (f.segments.map (.segment, ·) ++ (f.ann.toList.map (.ann, ·) ++
      (f.snapshot.toList.map (.snapshot, ·) ++ (f.manager.toList.map (.manager, ·) ++ H)))) := by
    simpa [RuntimeFields.refs] using hH
  exact Spec.bind (leafReleaseEach_spec .segment (fun _ ho => refs_of_leaf (.inl ho)) _ own hfields) fun _ =>
    Spec.bind (annResourceRelease_spec _ (.refl _)) fun _ =>
    Spec.bind (snapshotRelease_spec _ (.refl _)) fun _ => managerResourceRelease_spec _ (.refl _)

theorem runtimeRelease_spec (own : Own) {p : Option Nat} (hH : own.held.Perm (p.toList.map (.runtime, ·) ++ H)) :
    Spec pid (Owns pid own) (runtimeRelease p) fun _ => Owns pid { own with held := H } := by
  cases p with
  | none => exact Triple.pure fun _ h => h.perm hH (.refl _)
  | some a =>
    refine Spec.bind (release_spec own hH) fun last => Spec.assume fun hkind => ?_
    cases last with
    | none => exact Triple.pure fun _ h => h
    | some o =>
      have hruntime : o.kind = .runtime := hkind o rfl
      cases o <;> cases hruntime
      exact Spec.bind (runtimeClose_spec _ (.refl _)) fun _ => free_spec _ (.refl _)

end Release

/-! ## Looking -/

section Read

theorem Spec.exists {α ι : Type} {A : ι → State → Prop} {B : α → State → Prop} {p : Thread α}
    (h : ∀ i, Spec pid (A i) p B) : Spec pid (fun s => ∃ i, A i s) p B :=
  fun s ⟨i, hs⟩ => h i s hs

/-- What was read in between is forgotten. -/
theorem Spec.forget {α : Type} {A : State → Prop} {p : Thread α} {own : Own} {o : Object}
    (h : Spec pid A p fun _ => Owns pid (own.learn a o)) : Spec pid A p fun _ => Owns pid own :=
  Triple.conseq h (fun _ hs => hs) fun _ _ hs => hs.of_learn

theorem Own.Reaches.learn {own : Own} {r : Ref Kind} (h : own.Reaches r) (a : Nat) (o : Object) :
    (own.learn a o).Reaches r :=
  h.mono (by simp) fun _ => own.mem_known_learn

theorem Own.Reaches.field_learn {own : Own} {a : Nat} {o : Object} (h : own.Reaches (o.kind, a))
    (ho : o.kind ≠ .manager) {r : Ref Kind} (hr : r ∈ o.refs) : (own.learn a o).Reaches r :=
  .field (h.learn a o) (by rw [Own.known_learn ho]; exact List.mem_cons_self) hr

/-- A look at an object, of which nothing is kept. -/
theorem look_spec (own : Own) {r : Ref Kind} (hr : own.Reaches r) :
    Spec pid (Owns pid own) (perform (.read r)) fun _ => Owns pid own :=
  Triple.conseq (read_spec own hr) (fun _ hs => hs) fun _ _ hs => hs.2.of_learn

theorem readEach_spec (k : Kind) (as : List Nat) (own : Own) (has : ∀ a ∈ as, own.Reaches (k, a)) :
    Spec pid (Owns pid own) (readEach k as) fun _ => Owns pid own := by
  induction as with
  | nil => exact Triple.pure fun _ h => h
  | cons a as ih =>
    exact Spec.bind (look_spec own (has a List.mem_cons_self)) fun _ =>
      ih fun b hb => has b (List.mem_cons_of_mem _ hb)

theorem readSnapshot_spec (own : Own) {p : Option Nat} (hp : ∀ s, p = some s → own.Reaches (.snapshot, s)) :
    Spec pid (Owns pid own) (readSnapshot p) fun _ => Owns pid own := by
  cases p with
  | none => exact Triple.pure fun _ h => h
  | some s =>
    refine Spec.bind (read_spec own (hp s rfl)) fun o => Spec.assume fun hkind => ?_
    cases o <;> cases hkind
    rename_i segments
    exact (readEach_spec .documents segments _ fun b hb =>
      (hp s rfl).field_learn (by simp [Object.kind]) (List.mem_map.mpr ⟨b, hb, rfl⟩)).forget

theorem readRuntime_spec (own : Own) {f : RuntimeFields} (hf : ∀ r ∈ f.refs, own.Reaches r) :
    Spec pid (Owns pid own) (readRuntime f) fun _ => Owns pid own := by
  refine Spec.bind (readEach_spec .segment f.segments own fun a ha => hf _ ?_) fun _ =>
    Spec.bind (readSnapshot_spec own fun s hs => hf _ ?_) fun _ => readEach_spec .ann _ own fun a ha => hf _ ?_
  · simp [RuntimeFields.refs, ha]
  · simp [RuntimeFields.refs, hs]
  · simpa [RuntimeFields.refs] using ha

end Read

/-! ## Loading -/

section Load

theorem leafCreate_spec (own : Own) {o : Object} (ho : o.refs = []) : Spec pid (Owns pid own) (leafCreate o) fun r =>
    Owns pid { own with held := r.toList.map (o.kind, ·) ++ own.held } := by
  refine Spec.bind (calloc_spec own) fun a => ?_
  cases a with
  | none => exact Triple.pure fun _ h => h
  | some a =>
    refine Spec.bind (outside_spec _) fun initialised => ?_
    cases initialised with
    | true => exact Spec.bind (init_spec _ (by rw [ho]; exact .refl _) (.refl _)) fun _ => Triple.pure fun _ h => h
    | false => exact Spec.bind (free_spec _ (.refl _)) fun _ => Triple.pure fun _ h => h

theorem segmentResourceOpen_spec (own : Own) : Spec pid (Owns pid own) segmentResourceOpen fun r =>
    Owns pid { own with held := r.2.map (.segment, ·) ++ own.held } := by
  refine Spec.bind (calloc_spec own) fun a => ?_
  cases a with
  | none => exact Triple.pure fun _ h => h
  | some a =>
    refine Spec.bind (outside_spec _) fun opened => ?_
    cases opened with
    | true => exact Spec.bind (init_spec _ (.refl _) (.refl _)) fun _ => Triple.pure fun _ h => h
    | false => exact Spec.bind (free_spec _ (.refl _)) fun _ => Triple.pure fun _ h => h

theorem snapshotSegmentLoad_spec (own : Own) : Spec pid (Owns pid own) snapshotSegmentLoad fun r =>
    Owns pid { own with held := r.2.map (.documents, ·) ++ own.held } := by
  refine Spec.bind (outside_spec own) fun verified => ?_
  cases verified with
  | false => exact Triple.pure fun _ h => h
  | true =>
    refine Spec.bind (leafCreate_spec own rfl) fun a => ?_
    cases a with
    | none => exact Triple.pure fun _ h => h
    | some a => exact Spec.bind (outside_spec _) fun _ => Triple.pure fun _ h => h

/-- The loop over the segments: the thread has a reference to each of them, whether it was shared or loaded. -/
theorem loadEach_spec (k : Kind) (reusable : List Nat) (load : Thread (Bool × List Nat))
    (hload : ∀ own, Spec pid (Owns pid own) load fun r => Owns pid { own with held := r.2.map (k, ·) ++ own.held })
    (n : Nat) (own : Own) (hreuse : ∀ a ∈ reusable, own.Reaches (k, a)) :
    Spec pid (Owns pid own) (loadEach k reusable load n) fun r =>
      Owns pid { own with held := r.2.map (k, ·) ++ own.held } := by
  induction n generalizing own with
  | zero => exact Triple.pure fun _ h => h
  | succ n ih =>
    refine Spec.bind (choose_spec own) fun found => ?_
    cases hfound : found.bind fun i => reusable[i]? with
    | some a =>
      have hmem : a ∈ reusable := by
        obtain ⟨i, -, hi⟩ := Option.bind_eq_some_iff.mp hfound
        exact List.mem_of_getElem? hi
      simp only
      refine Spec.bind (retain_spec own (hreuse a hmem)) fun _ => Spec.bind (ih _ fun b hb =>
        (hreuse b hb).mono (fun _ ht => List.mem_cons_of_mem _ ht) fun _ hx => hx) fun rest => ?_
      exact Triple.pure fun _ h => h.perm List.perm_middle (.refl _)
    | none =>
      simp only
      refine Spec.bind (hload own) fun loaded => ?_
      split
      · exact Triple.pure fun _ h => h
      · refine Spec.bind (ih _ fun b hb =>
          (hreuse b hb).mono (fun _ ht => List.mem_append_right _ ht) fun _ hx => hx) fun rest => ?_
        refine Triple.pure fun _ h => h.perm ?_ (.refl _)
        rw [List.map_append, List.append_assoc]
        exact List.perm_append_comm_assoc _ _ _

theorem previousSegments_spec (own : Own) {previous : Option Nat}
    (hprevious : ∀ p, previous = some p → own.Reaches (.snapshot, p)) :
    Spec pid (Owns pid own) (previousSegments previous) fun reusable s => ∃ known, (∀ x ∈ own.known, x ∈ known) ∧
      (∀ b ∈ reusable, Own.Reaches { own with known := known } (.documents, b)) ∧
      Owns pid { own with known := known } s := by
  cases previous with
  | none => exact Triple.pure fun s h => ⟨own.known, fun _ hx => hx, by simp, h⟩
  | some p =>
    refine Spec.bind (read_spec own (hprevious p rfl)) fun o => Spec.assume fun hkind => ?_
    cases o <;> cases hkind
    rename_i segments
    refine Triple.pure fun s h => ⟨(own.learn p (.snapshot segments)).known, fun _ => own.mem_known_learn, fun b hb => ?_,
      h.weaken (by simp) (by simp) (by simp) fun _ hx => hx⟩
    have hreaches := Own.Reaches.field_learn (o := .snapshot segments) (hprevious p rfl) (by simp [Object.kind])
      (List.mem_map.mpr ⟨b, hb, rfl⟩)
    exact hreaches.mono (by simp) fun _ hx => hx

theorem snapshotFill_spec (own : Own) (n : Nat) {reusable : List Nat} (hW : own.owned.Perm ((a, false) :: W))
    (hreuse : ∀ b ∈ reusable, own.Reaches (.documents, b)) :
    Spec pid (Owns pid own) (snapshotFill a n reusable) fun r =>
      Owns pid { own with held := r.toList.map (.snapshot, ·) ++ own.held, owned := W } := by
  refine Spec.bind (loadEach_spec .documents reusable _ snapshotSegmentLoad_spec n own hreuse) fun loaded =>
    Spec.bind (outside_spec _) fun visible => ?_
  split
  · exact Spec.bind (init_spec _ (.refl _) hW) fun _ => Triple.pure fun _ h => h
  · exact Spec.bind (snapshotDestroy_spec _ (.refl _) hW) fun _ => Triple.pure fun _ h => h

theorem snapshotLoad_spec (own : Own) {previous : Option Nat}
    (hprevious : ∀ p, previous = some p → own.Reaches (.snapshot, p)) :
    Spec pid (Owns pid own) (snapshotLoad previous) fun r =>
      Owns pid { own with held := r.toList.map (.snapshot, ·) ++ own.held } := by
  refine Spec.bind (calloc_spec own) fun a => ?_
  cases a with
  | none => exact Triple.pure fun _ h => h
  | some a =>
    refine Spec.bind (choose_spec _) fun listed => ?_
    cases listed with
    | none => exact Spec.bind (free_spec _ (.refl _)) fun _ => Triple.pure fun _ h => h
    | some n =>
      refine Spec.bind (previousSegments_spec _ fun p hp => (hprevious p hp).mono (fun _ h => h) fun _ h => h)
        fun reusable => Spec.exists fun known => Spec.assume fun hknown => Spec.assume fun hreuse => ?_
      exact (snapshotFill_spec _ n (.refl _) hreuse).conseq (fun _ h => h) fun _ s h =>
        h.weaken (.refl _) (.refl _) rfl hknown

theorem managerResourceOpen_spec (own : Own) : Spec pid (Owns pid own) managerResourceOpen fun r =>
    Owns pid { own with held := r.toList.map (.manager, ·) ++ own.held } := by
  refine Spec.bind (calloc_spec own) fun m => ?_
  cases m with
  | none => exact Triple.pure fun _ h => h
  | some m =>
    refine Spec.bind (outside_spec _) fun prepared => ?_
    cases prepared with
    | false => exact Spec.bind (free_spec _ (.refl _)) fun _ => Triple.pure fun _ h => h
    | true =>
      refine Spec.bind (snapshotLoad_spec _ (by simp)) fun snapshot => ?_
      cases snapshot with
      | none => exact Spec.bind (free_spec _ (.refl _)) fun _ => Triple.pure fun _ h => h
      | some s => exact Spec.bind (init_spec _ (.refl _) (.refl _)) fun _ => Triple.pure fun _ h => h

theorem managerReload_spec (own : Own) {m : Nat} (hm : own.Reaches (.manager, m)) :
    Spec pid (Owns pid own) (managerReload m) fun _ => Owns pid own := by
  refine Spec.bind (managerAcquire_spec own hm) fun base => ?_
  refine Spec.bind (snapshotLoad_spec _ fun p hp => .held (by simp [hp])) fun candidate => ?_
  refine Spec.bind (snapshotRelease_spec _ (List.perm_append_comm_assoc _ _ _)) fun _ => ?_
  cases candidate with
  | none => exact Triple.pure fun _ h => h
  | some c =>
    refine Spec.bind (managerInstall_spec _ (hm.mono (fun _ ht => List.mem_append_right _ ht) fun _ h => h) (.refl _))
      fun installed => ?_
    cases installed with
    | none => exact Spec.bind (snapshotRelease_spec _ (.refl _)) fun _ => outside_spec _
    | some previous => exact Spec.bind (snapshotRelease_spec _ (.refl _)) fun _ => Triple.pure fun _ h => h

end Load

/-! ## Runtimes -/

section Runtime

theorem corpusStatsBuild_spec (own : Own) {f : RuntimeFields} (hf : ∀ r ∈ f.refs, own.Reaches r) :
    Spec pid (Owns pid own) (corpusStatsBuild f) fun _ => Owns pid own := by
  refine Spec.bind (readEach_spec .segment f.segments own fun a ha => hf _ ?_) fun _ =>
    Spec.bind (readSnapshot_spec own fun s hs => hf _ ?_) fun _ => outside_spec own
  · simp [RuntimeFields.refs, ha]
  · simp [RuntimeFields.refs, hs]

theorem annPrepare_spec (own : Own) {f : RuntimeFields} (hf : ∀ r ∈ f.refs, own.Reaches r) :
    Spec pid (Owns pid own) (annPrepare f) fun _ => Owns pid own :=
  Spec.bind (readRuntime_spec own hf) fun _ => outside_spec own

/-- Of a runtime that is being built, the thread holds all references. -/
theorem reaches_of_perm {own : Own} {f : RuntimeFields} (hH : own.held.Perm (f.refs ++ H)) {r : Ref Kind}
    (hr : r ∈ f.refs) : own.Reaches r :=
  .held (hH.mem_iff.mpr (List.mem_append_left _ hr))

/-- Its references, as the thread has taken them. -/
theorem perm_refs (segments : List Nat) (ann snapshot manager : Option Nat) (H : List (Ref Kind)) :
    (ann.toList.map (Kind.ann, ·) ++ (segments.map (Kind.segment, ·) ++ (snapshot.toList.map (Kind.snapshot, ·) ++
      (manager.toList.map (Kind.manager, ·) ++ H)))).Perm (RuntimeFields.refs ⟨segments, ann, snapshot, manager⟩ ++ H) := by
  rw [RuntimeFields.refs, List.append_assoc, List.append_assoc, List.append_assoc]
  exact List.perm_append_comm_assoc _ _ _

theorem runtimeOpenOnce_spec (own : Own) : Spec pid (Owns pid own) runtimeOpenOnce fun r =>
    Owns pid { own with held := r.2.refs ++ own.held } := by
  have hret : ∀ (ok : Bool) (f : RuntimeFields) (H : List (Ref Kind)), H.Perm (f.refs ++ own.held) →
      Spec pid (Owns pid { own with held := H }) (pure (ok, f)) fun r =>
        Owns pid { own with held := r.2.refs ++ own.held } :=
    fun ok f H hperm => Triple.pure fun _ h => h.perm hperm (.refl _)
  refine Spec.bind (choose_spec own) fun listed => ?_
  cases listed with
  | none => exact hret _ _ _ (.refl _)
  | some n =>
    refine Spec.bind (managerResourceOpen_spec own) fun manager => ?_
    cases manager with
    | none => exact hret _ _ _ (.refl _)
    | some m =>
      refine Spec.bind (managerAcquire_spec _ (.held (by simp))) fun snapshot => ?_
      refine Spec.bind (readSnapshot_spec _ fun s hs => .held (by simp [hs])) fun _ => ?_
      refine Spec.bind (outside_spec _) fun matching => ?_
      split
      · exact hret _ _ _ (perm_refs [] none snapshot (some m) own.held)
      refine Spec.bind (loadEach_spec .segment [] _ segmentResourceOpen_spec n _ (by simp)) fun segments => ?_
      have hsegments := perm_refs segments.2 none snapshot (some m) own.held
      split
      · exact hret _ _ _ hsegments
      refine Spec.bind (corpusStatsBuild_spec _ fun r => reaches_of_perm hsegments) fun counted => ?_
      split
      · exact hret _ _ _ hsegments
      refine Spec.bind (leafCreate_spec _ rfl) fun ann => ?_
      have hann := perm_refs segments.2 ann snapshot (some m) own.held
      exact Spec.bind (annPrepare_spec _ fun r => reaches_of_perm hann) fun prepared => hret _ _ _ hann

theorem runtimeOpen_spec (attempts : Nat) (own : Own) : Spec pid (Owns pid own) (runtimeOpen attempts) fun r =>
    Owns pid { own with held := r.elim [] RuntimeFields.refs ++ own.held } := by
  induction attempts with
  | zero => exact Triple.pure fun _ h => h
  | succ attempts ih =>
    refine Spec.bind (runtimeOpenOnce_spec own) fun r => ?_
    split
    · exact Spec.bind (runtimeClose_spec _ (.refl _)) fun _ => Triple.pure fun _ h => h
    refine Spec.bind (readSnapshot_spec _ fun s hs => .held (by simp [RuntimeFields.refs, hs])) fun _ => ?_
    refine Spec.bind (outside_spec _) fun same => ?_
    split
    · exact Triple.pure fun _ h => h
    · exact Spec.bind (runtimeClose_spec _ (.refl _)) fun _ => ih

theorem runtimeAllocateOpen_spec (own : Own) : Spec pid (Owns pid own) runtimeAllocateOpen fun r =>
    Owns pid { own with held := r.toList.map (.runtime, ·) ++ own.held } := by
  refine Spec.bind (calloc_spec own) fun a => ?_
  cases a with
  | none => exact Triple.pure fun _ h => h
  | some a =>
    refine Spec.bind (runtimeOpen_spec 4 _) fun opened => ?_
    cases opened with
    | none => exact Spec.bind (free_spec _ (.refl _)) fun _ => Triple.pure fun _ h => h
    | some f =>
      refine Spec.bind (outside_spec _) fun enabled => ?_
      split
      · exact Spec.bind (init_spec _ (.refl _) (.refl _)) fun _ => Triple.pure fun _ h => h
      · exact Spec.bind (runtimeClose_spec _ (.refl _)) fun _ =>
          Spec.bind (free_spec _ (.refl _)) fun _ => Triple.pure fun _ h => h

theorem candidateFields_spec (own : Own) {previous : Nat} {replacement : Option Nat}
    (hprevious : (.runtime, previous) ∈ own.held) (hreplacement : ∀ a, replacement = some a → (.ann, a) ∈ own.held) :
    Spec pid (Owns pid own) (candidateFields previous replacement) fun r =>
      Owns pid { own with held := r.2.refs ++ own.held } := by
  refine Spec.bind (choose_spec own) fun listed => ?_
  cases listed with
  | none => exact Triple.pure fun _ h => h
  | some n =>
    refine Spec.bind (read_spec own (.held hprevious)) fun o => Spec.assume fun hkind => ?_
    cases o <;> cases hkind
    rename_i fields
    set own' := own.learn previous (.runtime fields) with hown'
    have hfields : ∀ r ∈ fields.refs, own'.Reaches r := fun r hr =>
      Own.Reaches.field_learn (o := .runtime fields) (.held hprevious) (by simp [Object.kind]) hr
    have hret : ∀ (ok : Bool) (f : RuntimeFields) (H : List (Ref Kind)), H.Perm (f.refs ++ own'.held) →
        Spec pid (Owns pid { own' with held := H }) (pure (ok, f)) fun r =>
          Owns pid { own with held := r.2.refs ++ own.held } := fun ok f H hperm =>
      Triple.pure fun _ h => h.weaken (by simpa [hown'] using hperm) (by simp [hown']) (by simp [hown'])
        fun _ hx => own.mem_known_learn hx
    cases hmanager : (Object.runtime fields).fields.manager with
    | none => exact hret _ _ _ (.refl _)
    | some m =>
      have hfield : fields.manager = some m := hmanager
      have hm : own'.Reaches (.manager, m) := hfields _ (by simp [RuntimeFields.refs, hfield])
      refine Spec.bind (retain_spec own' hm) fun _ => ?_
      refine Spec.bind (managerReload_spec _ (.held (by simp))) fun reloaded => ?_
      split
      · exact hret _ _ _ (perm_refs [] none none (some m) own'.held)
      refine Spec.bind (managerAcquire_spec _ (.held (by simp))) fun snapshot => ?_
      refine Spec.bind (readSnapshot_spec _ fun s hs => .held (by simp [hs])) fun _ => ?_
      refine Spec.bind (outside_spec _) fun matching => ?_
      split
      · exact hret _ _ _ (perm_refs [] none snapshot (some m) own'.held)
      refine Spec.bind (loadEach_spec .segment fields.segments _ segmentResourceOpen_spec n _ fun b hb =>
        (hfields (.segment, b) (by simp [RuntimeFields.refs, hb])).mono (fun _ ht => by simp [ht]) fun _ hx => hx)
        fun segments => ?_
      have hsegments := perm_refs segments.2 none snapshot (some m) own'.held
      split
      · exact hret _ _ _ hsegments
      refine Spec.bind (corpusStatsBuild_spec _ fun r => reaches_of_perm hsegments) fun counted => ?_
      split
      · exact hret _ _ _ hsegments
      cases hann : replacement.or (Object.runtime fields).fields.ann with
      | none => exact hret _ _ _ hsegments
      | some a =>
        have ha : own'.Reaches (.ann, a) := by
          cases replacement with
          | none =>
            have hfield : fields.ann = some a := hann
            exact hfields _ (by simp [RuntimeFields.refs, hfield])
          | some b =>
            cases hann
            exact .held (by simpa [hown'] using hreplacement a rfl)
        refine Spec.bind (retain_spec _ (ha.mono (fun _ ht => by simp [ht]) fun _ hx => hx)) fun _ => ?_
        have hall := perm_refs segments.2 (some a) snapshot (some m) own'.held
        exact Spec.bind (annPrepare_spec _ fun r => reaches_of_perm hall) fun prepared => hret _ _ _ hall

theorem runtimeAllocateCandidate_spec (own : Own) {previous : Nat} {replacement : Option Nat}
    (hprevious : (.runtime, previous) ∈ own.held) (hreplacement : ∀ a, replacement = some a → (.ann, a) ∈ own.held) :
    Spec pid (Owns pid own) (runtimeAllocateCandidate previous replacement) fun r =>
      Owns pid { own with held := r.toList.map (.runtime, ·) ++ own.held } := by
  refine Spec.bind (calloc_spec own) fun a => ?_
  cases a with
  | none => exact Triple.pure fun _ h => h
  | some a =>
    refine Spec.bind (candidateFields_spec _ hprevious hreplacement) fun r => ?_
    split
    · exact Spec.bind (init_spec _ (.refl _) (.refl _)) fun _ => Triple.pure fun _ h => h
    · exact Spec.bind (runtimeClose_spec _ (.refl _)) fun _ =>
        Spec.bind (free_spec _ (.refl _)) fun _ => Triple.pure fun _ h => h

/-- The thread gives up the candidate, or the reference of `state->current` to the runtime that is replaced. -/
theorem runtimeStatePublishReplacement_spec (own : Own) {expected candidate : Nat}
    (hH : own.held.Perm ((.runtime, candidate) :: H)) :
    Spec pid (Owns pid own) (runtimeStatePublishReplacement expected candidate) fun r =>
      Owns pid { own with held := r.toList.map (.runtime, ·) ++ H } := by
  refine Spec.bind (publish_spec own hH) fun published => ?_
  cases published with
  | false => exact Triple.pure fun _ h => h
  | true => exact Spec.bind (runtimeRelease_spec _ (.refl _)) fun _ => Triple.pure fun _ h => h

theorem runtimeStateReload_spec (own : Own) : Spec pid (Owns pid own) runtimeStateReload fun _ => Owns pid own := by
  refine Spec.bind (acquire_spec own) fun previous => ?_
  cases previous with
  | none => exact Triple.pure fun _ h => h
  | some p =>
    refine Spec.bind (look_spec _ (.held (by simp))) fun _ => ?_
    refine Spec.bind (outside_spec _) fun changed => ?_
    split
    · exact runtimeRelease_spec _ (.refl _)
    refine Spec.bind (runtimeAllocateCandidate_spec _ (by simp) (by simp)) fun candidate => ?_
    cases candidate with
    | none => exact runtimeRelease_spec _ (.refl _)
    | some c =>
      refine Spec.bind (readEach_spec .runtime [c, p] _ fun a ha => ?_) fun _ => ?_
      · rcases List.mem_pair.mp ha with rfl | rfl <;> exact .held (by simp)
      refine Spec.bind (outside_spec _) fun newer => ?_
      split
      · exact Spec.bind (runtimeRelease_spec _ (.refl _)) fun _ => runtimeRelease_spec _ (.refl _)
      · exact Spec.bind (runtimeStatePublishReplacement_spec _ (.refl _)) fun rest =>
          Spec.bind (runtimeRelease_spec _ (.refl _)) fun _ => runtimeRelease_spec _ (.refl _)

theorem maintainAnn_spec (own : Own) {base replacementAnn : Nat} (hbase : (.runtime, base) ∈ own.held)
    (hann : (.ann, replacementAnn) ∈ own.held) :
    Spec pid (Owns pid own) (maintainAnn base replacementAnn) fun r =>
      Owns pid { own with held := r.toList.map (.runtime, ·) ++ own.held } := by
  refine Spec.bind (runtimeAllocateCandidate_spec own hbase (by rintro a ⟨rfl⟩; exact hann)) fun replacement => ?_
  cases replacement with
  | none => exact Triple.pure fun _ h => h
  | some c =>
    refine Spec.bind (readEach_spec .runtime [c, base] _ fun a ha => ?_) fun _ => ?_
    · rcases List.mem_pair.mp ha with rfl | rfl <;> exact .held (by simp [hbase])
    refine Spec.bind (outside_spec _) fun same => ?_
    split
    · exact Triple.pure fun _ h => h
    · exact runtimeStatePublishReplacement_spec _ (.refl _)

/-- A thread that has got the current runtime can read all that is behind its fields.  In the end it has given the runtime
up, and what it has seen is forgotten. -/
theorem withCurrent_spec (own : Own) {use : Nat → RuntimeFields → Thread Unit}
    (huse : ∀ a f own', (∀ r ∈ f.refs, own'.Reaches r) → own'.held = (.runtime, a) :: own.held →
      Spec pid (Owns pid own') (use a f) fun _ => Owns pid { own' with held := own.held }) :
    Spec pid (Owns pid own) (withCurrent use) fun _ => Owns pid own := by
  refine Spec.bind (acquire_spec own) fun current => ?_
  cases current with
  | none => exact Triple.pure fun _ h => h
  | some a =>
    have ha : Own.Reaches { own with held := (.runtime, a) :: own.held } (.runtime, a) := .held List.mem_cons_self
    refine Spec.bind (read_spec _ ha) fun o => Spec.assume fun hkind => ?_
    cases o <;> cases hkind
    rename_i fields
    refine (huse a fields _ (fun r hr => Own.Reaches.field_learn (o := .runtime fields) ha (by simp [Object.kind]) hr)
      (by simp)).conseq (fun _ h => h) fun _ s h => h.weaken (.refl _) (by simp) (by simp) fun x hx => ?_
    exact Own.mem_known_learn { own with held := (.runtime, a) :: own.held } hx

theorem maintainCurrent_spec (own : Own) {base : Nat} {f : RuntimeFields} (hf : ∀ r ∈ f.refs, own.Reaches r)
    (hheld : own.held = (.runtime, base) :: H) :
    Spec pid (Owns pid own) (maintainCurrent base f) fun _ => Owns pid { own with held := H } := by
  have hbase : own.held.Perm ((some base).toList.map (.runtime, ·) ++ H) := by rw [hheld]; exact .refl _
  refine Spec.bind (outside_spec _) fun needed => ?_
  split
  · exact runtimeRelease_spec _ hbase
  refine Spec.bind (leafCreate_spec own rfl) fun replacementAnn => ?_
  cases replacementAnn with
  | none => exact runtimeRelease_spec _ hbase
  | some a =>
    refine Spec.bind (readRuntime_spec _ fun r hr => (hf r hr).mono (fun _ ht => List.mem_append_right _ ht)
      fun _ hx => hx) fun _ => Spec.bind (outside_spec _) fun built => ?_
    split
    · exact Spec.bind (annResourceRelease_spec _ (.refl _)) fun _ => runtimeRelease_spec _ hbase
    · exact Spec.bind (maintainAnn_spec _ (by simp [hheld]) (by simp [Object.kind])) fun replacement =>
        Spec.bind (look_spec _ (.held (by simp [hheld]))) fun _ =>
        Spec.bind (runtimeRelease_spec _ (.refl _)) fun _ =>
        Spec.bind (annResourceRelease_spec _ (.refl _)) fun _ => runtimeRelease_spec _ hbase

theorem executeCurrent_spec (own : Own) {current : Nat} {f : RuntimeFields} (hf : ∀ r ∈ f.refs, own.Reaches r)
    (hheld : own.held = (.runtime, current) :: H) :
    Spec pid (Owns pid own) (executeCurrent current f) fun _ => Owns pid { own with held := H } :=
  Spec.bind (readRuntime_spec own hf) fun _ => runtimeRelease_spec _ (by rw [hheld]; exact .refl _)

theorem httpExecute_spec (own : Own) : Spec pid (Owns pid own) httpExecute fun _ => Owns pid own := by
  refine Spec.bind (runtimeOpen_spec 4 own) fun opened => ?_
  cases opened with
  | none => exact Triple.pure fun _ h => h
  | some f =>
    exact Spec.bind (readRuntime_spec _ fun r => reaches_of_perm (.refl _)) fun _ => runtimeClose_spec _ (.refl _)

theorem httpRuntimeOpen_spec (own : Own) (ho : own.opening = false) :
    Spec pid (Owns pid own) httpRuntimeOpen fun _ => Owns pid own := by
  refine Spec.bind (claim_spec own ho) fun claimed => ?_
  cases claimed with
  | false => exact Triple.pure fun _ h => by rwa [← ho] at h
  | true =>
    refine Spec.bind (runtimeAllocateOpen_spec _) fun opened => ?_
    cases opened with
    | none => exact (abandon_spec _ rfl).conseq (fun _ h => h) fun _ _ h => by rwa [← ho] at h
    | some a => exact (start_spec _ rfl (.refl _)).conseq (fun _ h => h) fun _ _ h => by rwa [← ho] at h

theorem httpRuntimeClose_spec (own : Own) : Spec pid (Owns pid own) httpRuntimeClose fun _ => Owns pid own :=
  Spec.bind (takeCurrent_spec own) fun _ => runtimeRelease_spec _ (.refl _)

end Runtime

/-! ## The whole memory -/

/-- A thread that has nothing. -/
def nothing : Own := ⟨[], [], false, []⟩

/-- **Every thread begins with nothing and ends with nothing.** -/
theorem program_spec (call : Call) : Spec pid (Owns pid nothing) (program call) fun _ => Owns pid nothing :=
  match call with
  | .open => httpRuntimeOpen_spec nothing rfl
  | .close => httpRuntimeClose_spec nothing
  | .reload => runtimeStateReload_spec nothing
  | .maintainAnn => withCurrent_spec nothing fun _ _ own hf hheld => maintainCurrent_spec own hf hheld
  | .execute => withCurrent_spec nothing fun _ _ own hf hheld => executeCurrent_spec own hf hheld
  | .executeAlone => httpExecute_spec nothing

theorem inv_empty : Inv empty where
  counted := {
    counts r := by simp [empty, State.outside, Heap.refs, Heap.count, Heap.look]
    raw x := by simp [empty, Heap.rawCount]
    live h := by simp [empty] at h }
  opening q hq := by cases hq

theorem owns_of_idle {s : State} (hinv : Inv s) (hidle : idle pid s = true) : Owns pid nothing s := by
  simp only [idle, Bool.and_eq_true, List.all_eq_true, decide_eq_true_eq] at hidle
  obtain ⟨⟨hheld, howned⟩, hopening⟩ := hidle
  refine ⟨hinv, fun r => ?_, fun x => ?_, ?_, by rintro a o ⟨⟩⟩
  · exact List.count_eq_zero.mpr fun h => hheld _ h rfl
  · exact List.count_eq_zero.mpr fun h => howned _ h rfl
  · simpa [nothing] using hopening

theorem sound : Sys.Sound exec idle (fun _ s => s) program (fun _ o s => o.Allowed s) Rely Guar Inv
    fun pid _ _ _ s => Owns pid nothing s where
  refl := Rely.refl
  trans _ _ _ _ := Rely.trans
  guarantee hne h := ⟨h.inv, h.apart _ (Ne.symm hne), h.lasting⟩
  inv hi h := h.inv hi
  crash _ := Rely.refl _ _
  crash_inv hi := hi
  safe _ call s hi hidle := program_spec call s (owns_of_idle hi hidle)

theorem Reachable.good {c : System} (h : Reachable c) :
    c.Good exec (fun _ o s => o.Allowed s) Rely Guar Inv fun pid _ _ _ s => Owns pid nothing s :=
  Sys.Reach.good sound ⟨inv_empty, by rintro pid proc ⟨⟩⟩ h

/-- Some steps of a thread in which nothing fails. -/
def acts (pid : Pid) (n : Nat) : List (Sys.Label Choice Call) := List.replicate n (.act pid .yes)

/-- The server is opened for one segment, and a search gets the runtime.  While it looks at it the server is reloaded for
a newer manifest that still lists the segment; the reload has still its own reference to the old runtime. -/
def reloadedRun : List (Sys.Label Choice Call) :=
  [.spawn 1 .open] ++ acts 1 2 ++ [.act 1 (.number 1)] ++ acts 1 3 ++ [.act 1 (.number 1), .act 1 .no] ++ acts 1 12 ++
    [.act 1 .no] ++ acts 1 21 ++ [.finish 1, .spawn 2 .execute] ++ acts 2 2 ++
    [.spawn 3 .reload] ++ acts 3 4 ++ [.act 3 (.number 1)] ++ acts 3 4 ++ [.act 3 (.number 1)] ++ acts 3 1 ++
    [.act 3 (.number 0)] ++ acts 3 10 ++ [.act 3 (.number 0)] ++ acts 3 17

/-- The reload and the search finish, and the server is closed. -/
def closedRun : List (Sys.Label Choice Call) :=
  reloadedRun ++ acts 3 1 ++ [.finish 3] ++ acts 2 12 ++ [.finish 2, .spawn 4 .close] ++ acts 4 14 ++ [.finish 4]

/-- The search is about to look at the segment, and the new runtime is in place. -/
def searchesOld (c : System) : Bool :=
  match c.procs 2 with
  | some ⟨_, _, .op (.read (.segment, 4)) _⟩ => c.state.current = some 6
  | _ => false

/-- Processes that are not running have nothing. -/
def Rested (c : System) : Prop := ∀ pid, c.procs pid = none → Owns pid nothing c.state

theorem Rested.step {c c' : System} {l : Sys.Label Choice Call} (h : Rested c)
    (hgood : c.Good exec (fun _ o s => o.Allowed s) Rely Guar Inv fun pid _ _ _ s => Owns pid nothing s)
    (hl : Sys.step exec idle (fun _ s => s) program c l = some c') (hcrash : l.isCrash = false) : Rested c' := by
  intro pid hnone
  cases l with
  | spawn q call =>
    simp only [Sys.step] at hl
    split at hl
    · cases hl
      by_cases hq : pid = q
      · simp [Sys.Config.setProc, hq] at hnone
      · exact h pid (by simpa [Sys.Config.setProc, hq] using hnone)
    · cases hl
  | act q choice =>
    simp only [Sys.step] at hl
    split at hl
    · rename_i call birth o k hproc
      rw [Option.map_eq_some_iff] at hl
      obtain ⟨⟨r, s'⟩, he, rfl⟩ := hl
      by_cases hq : pid = q
      · simp [Sys.Config.setProc, hq] at hnone
      · have hG := hgood.guarantee sound hproc he
        exact Stable.rely (h pid (by simpa [Sys.Config.setProc, hq] using hnone)) (sound.guarantee (Ne.symm hq) hG)
    · cases hl
  | finish q =>
    simp only [Sys.step] at hl
    split at hl
    · rename_i call birth a hproc
      cases hl
      by_cases hq : pid = q
      · subst hq
        exact hgood.post sound hproc
      · exact h pid (by simpa [Sys.Config.setProc, hq] using hnone)
    · cases hl
  | crash q => cases hcrash

theorem Rested.runAll {ls : List (Sys.Label Choice Call)} {c c' : System} (h : Rested c)
    (hgood : c.Good exec (fun _ o s => o.Allowed s) Rely Guar Inv fun pid _ _ _ s => Owns pid nothing s)
    (hrun : Sys.runAll exec idle (fun _ s => s) program c ls = some c') (hcrash : ∀ l ∈ ls, l.isCrash = false) :
    Rested c' ∧ Inv c'.state := by
  induction ls generalizing c with
  | nil =>
    cases hrun
    exact ⟨h, hgood.1⟩
  | cons l ls ih =>
    rw [Sys.runAll, Option.bind_eq_some_iff] at hrun
    obtain ⟨c₁, hl, hrest⟩ := hrun
    exact ih (h.step hgood hl (hcrash l List.mem_cons_self)) (hgood.step sound hl) hrest fun l' hl' =>
      hcrash l' (List.mem_cons_of_mem _ hl')

/-- How deep the objects of a type lie under a runtime. -/
def Kind.depth : Kind → Nat
  | .runtime => 0
  | .manager => 1
  | .snapshot => 2
  | .segment => 3
  | .ann => 3
  | .documents => 3

theorem depth_refs (o : Object) : ∀ t ∈ shape.refs o, (shape.kind o).depth < t.1.depth := by
  intro t ht
  cases o <;> simp only [shape, Object.refs, RuntimeFields.refs, List.mem_append, List.mem_map, List.not_mem_nil] at ht
  · rcases ht with ⟨a, -, rfl⟩ | ⟨a, -, rfl⟩ | ⟨a, -, rfl⟩ | ⟨a, -, rfl⟩ <;> simp [shape, Object.kind, Kind.depth]
  · obtain ⟨a, -, rfl⟩ := ht
    exact Nat.lt_add_one 1
  · obtain ⟨a, -, rfl⟩ := ht
    exact Nat.lt_add_one 2

end Lifetimes

end Yappod
