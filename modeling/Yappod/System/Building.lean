import Yappod.System.Rules

/-!
# Writing and removing segments

The programs that write the segments of a plan and those that remove directories again, for updates
and compactions alike.  `Building` says what a process knows of the directories it has made so far;
`writeSegments_spec` is the specification of the whole: if it succeeds, the directories hold exactly
the files of the descriptors it returns, and if it fails, something has failed or one of the slices
does not pass the checks (`filesStatus`).
-/

set_option autoImplicit false

namespace Yappod

variable {env : Env} {cfg : Config} {L₀ : Logical} {strict : Bool} {pid : Pid} {F : State → Prop}

/-! ## Removing -/

section Remove

/-- What a program that removes directories starts and ends with. -/
def Cleaning (env : Env) (cfg : Config) (L₀ : Logical) (pid : Pid) (F : State → Prop)
    (ids : List SegmentId) (s : State) : Prop := F s ∧ Disposable pid ids s ∧ Inv env cfg L₀ s

variable [Stable (Rely env cfg L₀) pid F] {ids : List SegmentId} {dir : SegmentId}

instance : Stable (Rely env cfg L₀) pid (Cleaning env cfg L₀ pid F ids) :=
  inferInstanceAs (Stable _ _ fun s => F s ∧ Disposable pid ids s ∧ Inv env cfg L₀ s)

variable [Framed F]

theorem cleanupSegmentDir_spec (hdir : dir ∈ ids) :
    Spec env cfg L₀ strict pid (Cleaning env cfg L₀ pid F ids) (cleanupSegmentDir dir)
      fun _ => Cleaning env cfg L₀ pid F ids := by
  have hall : ∀ cs, Spec env cfg L₀ strict pid (Cleaning env cfg L₀ pid F ids)
      (cleanupSegmentDir.unlinkAll dir cs) fun _ => Cleaning env cfg L₀ pid F ids := by
    intro cs
    induction cs with
    | nil => exact Spec.ret fun _ h => h
    | cons c cs ih => exact Spec.bind (Spec.unlinkComponent hdir c) fun _ => ih
  exact Spec.bind (hall _) fun _ => Spec.bind (Spec.rmdir hdir) fun _ => Spec.ret fun _ h => h

theorem cleanupSegmentDirs_spec {dirs : List SegmentId} (hdirs : ∀ dir ∈ dirs, dir ∈ ids) :
    Spec env cfg L₀ strict pid (Cleaning env cfg L₀ pid F ids) (cleanupSegmentDirs dirs)
      fun _ => Cleaning env cfg L₀ pid F ids := by
  induction dirs with
  | nil => exact Spec.ret fun _ h => h
  | cons dir dirs ih =>
    rw [List.forall_mem_cons] at hdirs
    exact Spec.bind (cleanupSegmentDir_spec hdirs.1) fun _ => ih hdirs.2

theorem removeSegmentDirectory_spec (hdir : dir ∈ ids) :
    Spec env cfg L₀ strict pid (Cleaning env cfg L₀ pid F ids) (removeSegmentDirectory dir)
      fun _ => Cleaning env cfg L₀ pid F ids := by
  have hall : ∀ cs, Spec env cfg L₀ strict pid (Cleaning env cfg L₀ pid F ids)
      (removeSegmentDirectory.unlinkAll dir cs) fun _ => Cleaning env cfg L₀ pid F ids := by
    intro cs
    induction cs with
    | nil => exact Spec.ret fun _ h => h
    | cons c cs ih =>
      refine Spec.bind (Spec.unlinkComponent hdir c) fun removed => ?_
      split
      · exact ih
      · exact Spec.ret fun _ h => h
  refine Spec.bind (Spec.skip (fun _ _ => rfl) fun _ => trivial) fun listed => ?_
  cases listed with
  | missing => exact Spec.ret fun _ h => h
  | failed => exact Spec.ret fun _ h => h
  | entries names =>
    refine Spec.bind (hall names) fun status => ?_
    refine Spec.bind (Spec.skip (fun _ _ => rfl) fun _ => trivial) fun closed => ?_
    split
    · exact Spec.ret fun _ h => h
    · split
      · exact Spec.ret fun _ h => h
      · refine Spec.bind (Spec.rmdir hdir) fun removed => ?_
        split <;> exact Spec.ret fun _ h => h

theorem removeSegmentDirectories_spec {dirs : List SegmentId} (hdirs : ∀ dir ∈ dirs, dir ∈ ids) :
    Spec env cfg L₀ strict pid (Cleaning env cfg L₀ pid F ids) (removeSegmentDirectories dirs)
      fun _ => Cleaning env cfg L₀ pid F ids := by
  induction dirs with
  | nil => exact Spec.ret fun _ h => h
  | cons dir dirs ih =>
    rw [List.forall_mem_cons] at hdirs
    exact Spec.bind (removeSegmentDirectory_spec hdirs.1) fun _ => ih hdirs.2

theorem removeObsolete_spec {dirs : List SegmentId} (hdirs : ∀ dir ∈ dirs, dir ∈ ids) :
    Spec env cfg L₀ strict pid (Cleaning env cfg L₀ pid F ids) (removeObsolete dirs)
      fun _ => Cleaning env cfg L₀ pid F ids := by
  induction dirs with
  | nil => exact Spec.ret fun _ h => h
  | cons dir dirs ih =>
    rw [List.forall_mem_cons] at hdirs
    refine Spec.bind (removeSegmentDirectory_spec hdirs.1) fun status => ?_
    split
    · exact Spec.ret fun _ h => h
    · exact ih hdirs.2

end Remove

/-! ## Writing -/

/-- The check of one file of a slice; vectors are also read back. -/
def fileStatus (cfg : Config) (x : Status × File) : Status :=
  x.1.next (if x.2.payload.component = .vectors then vectorSegmentOpen cfg x.2 else .ok)

/-- The first check of a slice that fails, if any. -/
def filesStatus (cfg : Config) (files : List (Status × File)) : Status :=
  files.foldr (fun x rest => (fileStatus cfg x).next rest) .ok

/-- A directory after files have been put into it. -/
def putFiles (dir : SegmentDir) (files : List (Status × File)) : SegmentDir :=
  files.foldl (fun dir x => Function.update dir x.2.payload.component (some x.2)) dir

/-- What a process knows of the directories it has made for its segments. -/
structure Building (env : Env) (cfg : Config) (L₀ : Logical) (pid : Pid) (kind : SegmentKind)
    (generation : Nat) (dirs : List (SegmentId × SegmentDir)) (s : State) : Prop where
  inv : Inv env cfg L₀ s
  held : s.Held pid kind
  /-- The names are new: no segment of this kind has been listed for this generation. -/
  future : ∀ id ∈ s.history.names, id.kind = kind → id.generation < generation
  nodup : (dirs.map Prod.fst).Nodup
  names : ∀ x ∈ dirs, x.1.kind = kind ∧ x.1.generation = generation
  content : ∀ x ∈ dirs, s.disk.segments x.1 = some x.2

section Write

variable {kind : SegmentKind} {generation : Nat} {dirs : List (SegmentId × SegmentDir)}
  {s s' : State}

instance : Stable (Rely env cfg L₀) pid (Building env cfg L₀ pid kind generation dirs) := by
  refine ⟨fun {s s'} h hr => ?_⟩
  have hsame : (∀ id ∈ s'.history.names, id.kind = kind → id ∈ s.history.names) ∧
      ∀ id, id.kind = kind → s'.disk.segments id = s.disk.segments id := by
    cases kind with
    | seg =>
      obtain ⟨hl, hd⟩ := hr.writer h.held
      have hn : s'.history.names = s.history.names := congrArg Ledger.names hl
      exact ⟨fun id hid _ => hn ▸ hid, hd⟩
    | compact =>
      obtain ⟨hd, hn, -⟩ := hr.compaction h.held
      exact ⟨hn, hd⟩
  exact {
    inv := hr.inv h.inv
    held := Stable.rely h.held hr
    future := fun id hid hk => h.future id (hsame.1 id hid hk) hk
    nodup := h.nodup
    names := h.names
    content := fun x hx => (hsame.2 x.1 (h.names x hx).1).trans (h.content x hx) }

/-- A segment that is being written is not listed. -/
theorem Building.fresh (h : Building env cfg L₀ pid kind generation dirs s) {id : SegmentId}
    (hk : id.kind = kind) (hg : id.generation = generation) : id ∉ s.history.names := fun hid => by
  have := h.future id hid hk
  omega

theorem Building.unlisted (h : Building env cfg L₀ pid kind generation dirs s) {id : SegmentId}
    (hk : id.kind = kind) (hg : id.generation = generation) : s.Unlisted id := by
  intro m hm hid
  obtain ⟨m', hm'⟩ := h.inv
  obtain rfl : m = m' := Option.some.inj (hm.symm.trans hm'.ledger.manifest)
  exact h.fresh hk hg (hm'.ledger.listed id hid)

/-- The directories may be removed as long as they are not published. -/
theorem Building.disposable (h : Building env cfg L₀ pid kind generation dirs s) :
    Disposable pid (dirs.map Prod.fst) s := by
  refine ⟨fun id hid => ?_, Or.inl fun id hid => ?_⟩
  · obtain ⟨x, hx, rfl⟩ := List.mem_map.mp hid
    rw [(h.names x hx).1]
    exact h.held
  · obtain ⟨x, hx, rfl⟩ := List.mem_map.mp hid
    exact h.unlisted (h.names x hx).1 (h.names x hx).2

/-- **A directory that the process makes or fills.** -/
theorem Building.change (h : Building env cfg L₀ pid kind generation dirs s) (id : SegmentId)
    (dir : SegmentDir) (hk : id.kind = kind) (hg : id.generation = generation)
    (hnew : id ∉ dirs.map Prod.fst)
    (hl : s'.ledger = s.ledger) (hlocks : s'.locks = s.locks)
    (hf : s.history.faults <:+ s'.history.faults) (hh : s'.history.hazards = s.history.hazards)
    (others : ∀ id', id' ≠ id → s'.disk.segments id' = s.disk.segments id')
    (hself : s'.disk.segments id = some dir) :
    Guar env cfg pid s s' ∧ Building env cfg L₀ pid kind generation (dirs ++ [(id, dir)]) s' := by
  have hguar : Guar env cfg pid s s' :=
    Guar.dir id hl hlocks hf hh others (hk.symm ▸ h.held) (Or.inl (h.unlisted hk hg))
  have hn : s'.history.names = s.history.names := congrArg Ledger.names hl
  refine ⟨hguar, ?_⟩
  exact {
    inv := hguar.inv h.inv
    held := Framed.frame h.held hl hlocks hf (hh ▸ List.suffix_refl _)
    future := fun id hid => h.future id (hn ▸ hid)
    nodup := by
      rw [List.map_append, List.nodup_append]
      refine ⟨h.nodup, List.nodup_singleton _, fun a ha b hb hab => ?_⟩
      obtain rfl : b = id := by simpa using hb
      exact hnew (hab ▸ ha)
    names := fun x hx => by
      rcases List.mem_append.mp hx with hx | hx
      · exact h.names x hx
      · rw [List.mem_singleton] at hx
        subst hx
        exact ⟨hk, hg⟩
    content := fun x hx => by
      rcases List.mem_append.mp hx with hx | hx
      · rw [others x.1 fun he => hnew (he ▸ List.mem_map.mpr ⟨x, hx, rfl⟩)]
        exact h.content x hx
      · rw [List.mem_singleton] at hx
        subst hx
        exact hself }

/-- What is known of fewer directories. -/
theorem Building.init {x : SegmentId × SegmentDir}
    (h : Building env cfg L₀ pid kind generation (dirs ++ [x]) s) :
    Building env cfg L₀ pid kind generation dirs s ∧ x.1.kind = kind ∧
      x.1.generation = generation ∧ x.1 ∉ dirs.map Prod.fst ∧ s.disk.segments x.1 = some x.2 := by
  have hx : x ∈ dirs ++ [x] := List.mem_append_right _ (List.mem_singleton_self _)
  have hnd := h.nodup
  rw [List.map_append, List.nodup_append] at hnd
  refine ⟨⟨h.inv, h.held, h.future, hnd.1, fun y hy => h.names y (List.mem_append_left _ hy),
    fun y hy => h.content y (List.mem_append_left _ hy)⟩, (h.names x hx).1, (h.names x hx).2, ?_,
    h.content x hx⟩
  exact fun hmem => hnd.2.2 _ hmem x.1 (by simp) rfl

variable [Stable (Rely env cfg L₀) pid F] [Framed F]

/-- What `mkdtemp` can do. -/
theorem execMkdtemp_eq_some {c : Choice} {r : Option SegmentId}
    (h : execMkdtemp pid c s kind generation = some (r, s')) :
    (∃ id, id.kind = kind ∧ id.generation = generation ∧ s.disk.segments id = none ∧ r = some id ∧
      s' = s.setDir id (some fun _ => none)) ∨
    (r = none ∧ s' = s.fault pid (.mkdtemp kind generation)) := by
  unfold execMkdtemp at h
  split at h
  · split at h
    · rename_i hnone
      cases h
      exact Or.inl ⟨_, rfl, rfl, hnone, rfl, rfl⟩
    · cases h
  · cases h
    exact Or.inr ⟨rfl, rfl⟩
  · cases h

/-- **The rule of `mkdtemp`.** -/
theorem Spec.mkdtemp :
    Spec env cfg L₀ strict pid
      (fun s => F s ∧ Building env cfg L₀ pid kind generation dirs s)
      (perform (.mkdtemp kind generation)) fun r s => F s ∧
        ((∃ id, r = some id ∧
          Building env cfg L₀ pid kind generation (dirs ++ [(id, fun _ => none)]) s) ∨
        (r = none ∧ Building env cfg L₀ pid kind generation dirs s ∧ s.Faulty pid)) := by
  refine Triple.perform (fun _ _ => trivial) fun s c r s' hA he => ?_
  obtain ⟨hF, hB⟩ := hA
  rcases execMkdtemp_eq_some he with ⟨id, hk, hg, hnone, rfl, rfl⟩ | ⟨rfl, rfl⟩
  · have hnew : id ∉ dirs.map Prod.fst := fun hid => by
      obtain ⟨x, hx, rfl⟩ := List.mem_map.mp hid
      rw [hB.content x hx] at hnone
      cases hnone
    obtain ⟨hguar, hB'⟩ : Guar env cfg pid s (s.setDir id (some fun _ => none)) ∧ _ :=
      hB.change id (fun _ => none) hk hg hnew rfl rfl (List.suffix_refl _) rfl
        (fun _ h => s.segments_setDir_ne id h) (s.segments_setDir_self id)
    exact ⟨hguar, Framed.frame hF rfl rfl (List.suffix_refl _) (List.suffix_refl _),
      Or.inl ⟨id, rfl, hB'⟩⟩
  · have hrely : Rely env cfg L₀ pid s (s.fault pid (.mkdtemp kind generation)) :=
      Rely.fault pid pid s _
    exact ⟨Guar.fault pid s _, Stable.rely hF hrely,
      Or.inr ⟨rfl, Stable.rely hB hrely, _, s.failed_fault _⟩⟩

/-- **The rule of a component file.** -/
theorem Spec.writeComponent {dir : SegmentId} {x : SegmentDir} (f : File) :
    Spec env cfg L₀ strict pid
      (fun s => F s ∧ Building env cfg L₀ pid kind generation (dirs ++ [(dir, x)]) s)
      (perform (.writeComponent dir f)) fun r s => F s ∧
        ((r = .ok ∧ Building env cfg L₀ pid kind generation
          (dirs ++ [(dir, Function.update x f.payload.component (some f))]) s) ∨
        (r ≠ .ok ∧ r ≠ .segmentCapacityExceeded ∧ s.Faulty pid ∧
          ∃ y, Building env cfg L₀ pid kind generation (dirs ++ [(dir, y)]) s)) := by
  refine Triple.perform (fun _ _ => trivial) fun s c r s' hA he => ?_
  obtain ⟨hF, hB⟩ := hA
  obtain ⟨hB₀, hk, hg, hnew, hdir⟩ := hB.init
  have hset := s.setFile_of_some dir hdir f.payload.component (some f)
  have hfail : (if f.payload.component = .ann then Status.conflict else .ioError) ≠ .ok ∧
      (if f.payload.component = .ann then Status.conflict else .ioError) ≠
        .segmentCapacityExceeded := by
    split <;> simp
  have hchange : ∀ {t : State}, t.ledger = s.ledger → t.locks = s.locks →
      s.history.faults <:+ t.history.faults → t.history.hazards = s.history.hazards →
      t.disk.segments = (s.setFile dir f.payload.component (some f)).disk.segments →
      Guar env cfg pid s t ∧ F t ∧ Building env cfg L₀ pid kind generation
        (dirs ++ [(dir, Function.update x f.payload.component (some f))]) t := by
    intro t hl hlocks hf hh hsegs
    rw [hset] at hsegs
    obtain ⟨hguar, hB'⟩ := hB₀.change dir _ hk hg hnew hl hlocks hf hh
      (fun _ h => by rw [hsegs]; exact s.segments_setDir_ne dir h)
      (by rw [hsegs]; exact s.segments_setDir_self dir)
    exact ⟨hguar, Framed.frame hF hl hlocks hf (hh ▸ List.suffix_refl _), hB'⟩
  have he : execWriteComponent pid c s dir f = some (r, s') := he
  unfold execWriteComponent at he
  dsimp only at he
  split at he
  · cases he
    obtain ⟨hguar, hF', hB'⟩ := hchange (by rw [hset]; rfl) (by rw [hset]; rfl)
      (by rw [hset]; exact List.suffix_refl _) (by rw [hset]; rfl) rfl
    exact ⟨hguar, hF', Or.inl ⟨rfl, hB'⟩⟩
  · cases he
    have hrely : Rely env cfg L₀ pid s (s.fault pid (.writeComponent dir f)) :=
      Rely.fault pid pid s _
    exact ⟨Guar.fault pid s _, Stable.rely hF hrely,
      Or.inr ⟨hfail.1, hfail.2, ⟨_, s.failed_fault _⟩, x,
        Stable.rely hB hrely⟩⟩
  · cases he
    obtain ⟨hguar, hF', hB'⟩ := hchange
      (t := (s.setFile dir f.payload.component (some f)).fault pid (.writeComponent dir f))
      (by rw [hset]; rfl) (by rw [hset]; rfl)
      (by rw [hset]; exact List.suffix_cons _ _) (by rw [hset]; rfl) rfl
    exact ⟨hguar, hF', Or.inr ⟨hfail.1, hfail.2,
      ⟨_, State.failed_fault _ _⟩, _, hB'⟩⟩
  · cases he

/-! ## The files of a slice -/

/-- How a program that writes something ends: it is done if the checks allow it, and otherwise it has
left something behind, because of the checks or because a step has failed. -/
def Outcome (pid : Pid) (checks : Status) (done left : State → Prop) (status : Status) (s : State) :
    Prop :=
  (status = .ok ∧ checks = .ok ∧ done s) ∨
    (status ≠ .ok ∧ left s ∧
      (status = checks ∨ (status ≠ .segmentCapacityExceeded ∧ s.Faulty pid)))

instance {checks status : Status} {done left : State → Prop} [Stable (Rely env cfg L₀) pid done]
    [Stable (Rely env cfg L₀) pid left] :
    Stable (Rely env cfg L₀) pid (Outcome pid checks done left status) :=
  inferInstanceAs (Stable _ _ fun s => (status = .ok ∧ checks = .ok ∧ done s) ∨
    (status ≠ .ok ∧ left s ∧
      (status = checks ∨ (status ≠ .segmentCapacityExceeded ∧ s.Faulty pid))))

/-- The directories with one more of unknown contents. -/
def BuildingOne (env : Env) (cfg : Config) (L₀ : Logical) (pid : Pid) (kind : SegmentKind)
    (generation : Nat) (dirs : List (SegmentId × SegmentDir)) (dir : SegmentId) (s : State) : Prop :=
  ∃ y, Building env cfg L₀ pid kind generation (dirs ++ [(dir, y)]) s

instance {dir : SegmentId} :
    Stable (Rely env cfg L₀) pid (BuildingOne env cfg L₀ pid kind generation dirs dir) :=
  inferInstanceAs (Stable _ _ fun s => ∃ y,
    Building env cfg L₀ pid kind generation (dirs ++ [(dir, y)]) s)

theorem writeFiles_spec {dir : SegmentId} (files : List (Status × File)) (x : SegmentDir) :
    Spec env cfg L₀ strict pid
      (fun s => F s ∧ Building env cfg L₀ pid kind generation (dirs ++ [(dir, x)]) s)
      (writeFiles cfg dir files) fun status s => F s ∧
        Outcome pid (filesStatus cfg files)
          (Building env cfg L₀ pid kind generation (dirs ++ [(dir, putFiles x files)]))
          (BuildingOne env cfg L₀ pid kind generation dirs dir) status s := by
  induction files generalizing x with
  | nil => exact Spec.ret fun s h => ⟨h.1, Or.inl ⟨rfl, rfl, h.2⟩⟩
  | cons a files ih =>
    obtain ⟨check, f⟩ := a
    rw [writeFiles]
    split
    · rename_i hcheck
      refine Spec.ret fun s h => ⟨h.1, Or.inr ⟨hcheck, ⟨x, h.2⟩, Or.inl ?_⟩⟩
      simp [filesStatus, fileStatus, Status.next, hcheck]
    · rename_i hcheck
      rw [not_not] at hcheck
      subst hcheck
      refine Spec.bind (Spec.writeComponent f) fun status => ?_
      split
      · -- the file was not written
        rename_i hstatus
        refine Spec.ret ?_
        rintro s ⟨hF, ⟨hok, -⟩ | ⟨-, hcap, hfault, hleft⟩⟩
        · exact absurd hok hstatus
        · exact ⟨hF, Or.inr ⟨hstatus, hleft, Or.inr ⟨hcap, hfault⟩⟩⟩
      · rename_i hstatus
        rw [not_not] at hstatus
        have hwritten : ∀ s, (F s ∧ ((status = .ok ∧ Building env cfg L₀ pid kind generation
            (dirs ++ [(dir, Function.update x f.payload.component (some f))]) s) ∨
            (status ≠ .ok ∧ status ≠ .segmentCapacityExceeded ∧ s.Faulty pid ∧
              ∃ y, Building env cfg L₀ pid kind generation (dirs ++ [(dir, y)]) s))) →
            F s ∧ Building env cfg L₀ pid kind generation
              (dirs ++ [(dir, Function.update x f.payload.component (some f))]) s := by
          rintro s ⟨hF, ⟨-, hB⟩ | ⟨hne, -⟩⟩
          · exact ⟨hF, hB⟩
          · exact absurd hstatus hne
        split
        · -- vectors are read back
          rename_i hvec
          refine Spec.bind ((Spec.readComponent (V := fun r => r = some f) ?_).conseq hwritten
            fun _ _ h => h) fun back => ?_
          · rintro s ⟨-, hB⟩
            have hdir := hB.init.2.2.2.2
            rw [State.file, hdir, hvec]
            simp
          · cases back with
            | none =>
              refine Spec.ret ?_
              rintro s ⟨⟨hF, hB⟩, h | ⟨-, hfail⟩⟩
              · cases h
              · exact ⟨hF, Or.inr ⟨by simp, ⟨_, hB⟩, Or.inr ⟨by simp, _, hfail⟩⟩⟩
            | some g =>
              have hg : ∀ s, ((F s ∧ Building env cfg L₀ pid kind generation
                  (dirs ++ [(dir, Function.update x f.payload.component (some f))]) s) ∧
                  (some g = some f ∨ (some g = none ∧ s.Failed pid (.readComponent dir .vectors)))) →
                  g = f := by
                rintro s ⟨-, h | ⟨h, -⟩⟩
                · exact Option.some.inj h
                · cases h
              dsimp only
              split
              · rename_i hopen
                refine Spec.ret fun s h => ?_
                obtain rfl := hg s h
                refine ⟨h.1.1, Or.inr ⟨hopen, ⟨_, h.1.2⟩, Or.inl ?_⟩⟩
                simp [filesStatus, fileStatus, hvec, Status.next, hopen]
              · rename_i hopen
                rw [not_not] at hopen
                intro s h
                obtain rfl := hg s h
                have hfs : filesStatus cfg ((.ok, g) :: files) = filesStatus cfg files := by
                  simp [filesStatus, fileStatus, hvec, hopen]
                rw [hfs]
                exact ih _ s h.1
        · rename_i hvec
          have hfs : filesStatus cfg ((.ok, f) :: files) = filesStatus cfg files := by
            simp [filesStatus, fileStatus, hvec]
          rw [hfs]
          exact (ih _).conseq hwritten fun _ _ h => h

/-- The checks that the units of a slice have to pass. -/
def sliceCheck (env : Env) (cfg : Config) (kind : SegmentKind) (generation : Nat)
    (us : List SegmentUnit) : Status :=
  filesStatus cfg (sliceFiles env cfg ⟨kind, generation, 0⟩ generation us)

/-- The checks do not depend on the name of the directory, apart from its kind. -/
theorem filesStatus_sliceFiles (id : SegmentId) (us : List SegmentUnit) :
    filesStatus cfg (sliceFiles env cfg id generation us) =
      sliceCheck env cfg id.kind generation us := by
  have hcap : capacityCheck env (documentsPayload id us) =
      capacityCheck env (documentsPayload ⟨id.kind, generation, 0⟩ us) := rfl
  simp only [sliceCheck, filesStatus, sliceFiles, List.cons_append, List.nil_append,
    List.foldr_cons, hcap]
  rfl

/-- A directory into which the files of a slice were put holds the files of its descriptor. -/
theorem putFiles_sliceFiles (id : SegmentId) (us : List SegmentUnit) :
    putFiles (fun _ => none) (sliceFiles env cfg id generation us) =
      (describe env cfg id generation us).file := by
  funext c
  rw [describe_file]
  simp only [sliceFile, sliceFiles]
  by_cases hd : unitDocuments us = [] <;> by_cases ht : unitTombstones us = [] <;>
    by_cases hv : cfg.hasVectors = true ∧ unitPassages us ≠ [] <;>
    cases c <;>
    simp [hd, ht, hv, putFiles, Payload.component, documentsPayload, postingsPayload,
      metadataPayload, vectorsPayload, List.find?]

theorem segmentSliceWrite_spec {dir : SegmentId} (us : List SegmentUnit) :
    Spec env cfg L₀ strict pid
      (fun s => F s ∧
        Building env cfg L₀ pid dir.kind generation (dirs ++ [(dir, fun _ => none)]) s)
      (segmentSliceWrite env cfg dir generation us) fun status s => F s ∧
        Outcome pid (sliceCheck env cfg dir.kind generation us)
          (Building env cfg L₀ pid dir.kind generation
            (dirs ++ [(dir, (describe env cfg dir generation us).file)]))
          (BuildingOne env cfg L₀ pid dir.kind generation dirs dir) status s := by
  rw [← putFiles_sliceFiles, ← filesStatus_sliceFiles]
  refine Spec.bind (writeFiles_spec _ _) fun status => ?_
  split
  · exact Spec.ret fun s h => h
  · rename_i hstatus
    rw [not_not] at hstatus
    subst hstatus
    refine Spec.bind (Spec.passive (o := .syncSegment dir) (V := fun r => r = true)
      (fun _ _ => rfl) (fun _ => trivial) fun _ _ => rfl) fun synced => ?_
    split
    · exact Spec.ret fun s h => h.1
    · rename_i hsynced
      refine Spec.ret ?_
      rintro s ⟨⟨hF, ⟨-, -, hB⟩ | ⟨hne, -⟩⟩, h | ⟨-, hfail⟩⟩
      · exact absurd h hsynced
      · exact ⟨hF, Or.inr ⟨by simp, ⟨_, hB⟩, Or.inr ⟨by simp, _, hfail⟩⟩⟩
      · exact absurd rfl hne
      · exact absurd rfl hne

/-! ## The slices of a plan -/

/-- The checks that the slices of a plan have to pass, in their order. -/
def planCheck (env : Env) (cfg : Config) (kind : SegmentKind) (generation : Nat)
    (units : List SegmentUnit) (slices : List Slice) : Status :=
  slices.foldr (fun slice rest =>
    (sliceCheck env cfg kind generation (slice.units units)).next rest) .ok

/-- The descriptors of the segments of slices. -/
def SegmentsOf (env : Env) (cfg : Config) (generation : Nat) (units : List SegmentUnit)
    (slices : List Slice) (ds : List SegmentDescriptor) : Prop :=
  List.Forall₂ (fun slice d => d = describe env cfg d.id generation (Slice.units slice units))
    slices ds

/-- The directories of segments that are complete. -/
def segmentDirs (ds : List SegmentDescriptor) : List (SegmentId × SegmentDir) :=
  ds.map fun d => (d.id, d.file)

/-- The directories that were made for a plan that was not completed. -/
def BuildingDirs (env : Env) (cfg : Config) (L₀ : Logical) (pid : Pid) (kind : SegmentKind)
    (generation : Nat) (ids : List SegmentId) (s : State) : Prop :=
  ∃ dirs, Building env cfg L₀ pid kind generation dirs s ∧ ids = dirs.map Prod.fst

instance {ids : List SegmentId} :
    Stable (Rely env cfg L₀) pid (BuildingDirs env cfg L₀ pid kind generation ids) :=
  inferInstanceAs (Stable _ _ fun s => ∃ dirs,
    Building env cfg L₀ pid kind generation dirs s ∧ ids = dirs.map Prod.fst)

/-- The segments of a plan, complete. -/
def Complete (env : Env) (cfg : Config) (L₀ : Logical) (pid : Pid) (kind : SegmentKind)
    (generation : Nat) (units : List SegmentUnit) (slices : List Slice)
    (w : Written) (s : State) : Prop :=
  w.failedSlice = none ∧ SegmentsOf env cfg generation units slices w.descriptors ∧
    Building env cfg L₀ pid kind generation (segmentDirs w.descriptors) s ∧
    w.dirs = w.descriptors.map (·.id)

instance {units : List SegmentUnit} {slices : List Slice} {w : Written} :
    Stable (Rely env cfg L₀) pid (Complete env cfg L₀ pid kind generation units slices w) :=
  inferInstanceAs (Stable _ _ fun s => w.failedSlice = none ∧
    SegmentsOf env cfg generation units slices w.descriptors ∧
    Building env cfg L₀ pid kind generation (segmentDirs w.descriptors) s ∧
    w.dirs = w.descriptors.map (·.id))

theorem writeSlices_spec (units : List SegmentUnit) (done slices : List Slice) (i : Nat)
    (ds : List SegmentDescriptor) (hds : SegmentsOf env cfg generation units done ds) :
    Spec env cfg L₀ strict pid
      (fun s => F s ∧ Building env cfg L₀ pid kind generation (segmentDirs ds) s)
      (writeSlices env cfg kind generation units i slices (ds.map (·.id)) ds) fun w s => F s ∧
        (w.failedSlice ≠ none → w.status = .segmentCapacityExceeded) ∧
        Outcome pid (planCheck env cfg kind generation units slices)
          (Complete env cfg L₀ pid kind generation units (done ++ slices) w)
          (BuildingDirs env cfg L₀ pid kind generation w.dirs) w.status s := by
  induction slices generalizing done i ds with
  | nil =>
    refine Spec.ret fun s h => ⟨h.1, by simp, Or.inl ⟨rfl, rfl, rfl, ?_, h.2, rfl⟩⟩
    rw [List.append_nil]
    exact hds
  | cons slice slices ih =>
    rw [writeSlices]
    refine Spec.bind Spec.mkdtemp fun made => ?_
    cases made with
    | none =>
      refine Spec.ret ?_
      rintro s ⟨hF, ⟨id, h, -⟩ | ⟨-, hB, hfault⟩⟩
      · cases h
      · refine ⟨hF, by simp, Or.inr ⟨by simp, ⟨_, hB, ?_⟩, Or.inr ⟨by simp, hfault⟩⟩⟩
        rw [segmentDirs, List.map_map]
        rfl
    | some dir =>
      have hmade : ∀ s, (F s ∧ ((∃ id, some dir = some id ∧ Building env cfg L₀ pid kind generation
          (segmentDirs ds ++ [(id, fun _ => none)]) s) ∨ (some dir = none ∧
          Building env cfg L₀ pid kind generation (segmentDirs ds) s ∧ s.Faulty pid))) →
          dir.kind = kind ∧ F s ∧ Building env cfg L₀ pid dir.kind generation
            (segmentDirs ds ++ [(dir, fun _ => none)]) s := by
        rintro s ⟨hF, ⟨id, ⟨rfl⟩, hB⟩ | ⟨h, -⟩⟩
        · have hk := hB.init.2.1
          dsimp only at hk
          exact ⟨hk, hF, hk.symm ▸ hB⟩
        · cases h
      intro s hs
      obtain ⟨rfl, hbuilding⟩ := hmade s hs
      refine (Spec.bind (segmentSliceWrite_spec (slice.units units)) fun status => ?_) s hbuilding
      split
      · rename_i hstatus
        refine Spec.ret ?_
        rintro s ⟨hF, ⟨hok, -⟩ | ⟨hne, ⟨y, hB⟩, hwhy⟩⟩
        · exact absurd hok hstatus
        · refine ⟨hF, ?_, Or.inr ⟨hstatus, ⟨_, hB, ?_⟩, ?_⟩⟩
          · simp
          · simp [segmentDirs]
          · refine hwhy.imp_left fun hwhy => ?_
            rw [planCheck, List.foldr_cons, Status.next, ← hwhy, if_neg hne]
      · rename_i hstatus
        rw [not_not] at hstatus
        intro s hs
        obtain ⟨hF, ⟨-, hcheck, hB⟩ | ⟨hne, -⟩⟩ := hs
        · have hds' : SegmentsOf env cfg generation units (done ++ [slice])
              (ds ++ [describe env cfg dir generation (slice.units units)]) :=
            List.rel_append hds (.cons rfl .nil)
          have hB' : Building env cfg L₀ pid dir.kind generation
              (segmentDirs (ds ++ [describe env cfg dir generation (slice.units units)])) s := by
            rw [segmentDirs, List.map_append]
            exact hB
          have hspec := ih (done ++ [slice]) (i + 1) _ hds' s ⟨hF, hB'⟩
          rw [List.append_assoc, List.map_append] at hspec
          have hplan : planCheck env cfg dir.kind generation units (slice :: slices) =
              planCheck env cfg dir.kind generation units slices := by
            rw [planCheck, List.foldr_cons, hcheck]
            rfl
          rw [hplan]
          exact hspec
        · exact absurd hstatus hne

/-! ## The plan, cut finer where need be -/

/-- The process may make directories of this kind for this generation. -/
structure Upcoming (pid : Pid) (kind : SegmentKind) (generation : Nat) (s : State) : Prop where
  held : s.Held pid kind
  future : ∀ id ∈ s.history.names, id.kind = kind → id.generation < generation

instance : Stable (Rely env cfg L₀) pid (Upcoming pid kind generation) := by
  refine ⟨fun {s s'} h hr => ⟨Stable.rely h.held hr, fun id hid hk => ?_⟩⟩
  cases kind with
  | seg =>
    have hn : s'.history.names = s.history.names := congrArg Ledger.names (hr.writer h.held).1
    exact h.future id (hn ▸ hid) hk
  | compact => exact h.future id ((hr.compaction h.held).2.1 id hid hk) hk

instance : Framed (Upcoming pid kind generation) := by
  refine ⟨fun {s s'} h h₁ h₂ h₃ h₄ => ⟨Framed.frame h.held h₁ h₂ h₃ h₄, ?_⟩⟩
  have hn : s'.history.names = s.history.names := congrArg Ledger.names h₁
  rw [hn]
  exact h.future

theorem Building.upcoming (h : Building env cfg L₀ pid kind generation dirs s) :
    Upcoming pid kind generation s := ⟨h.held, h.future⟩

theorem Upcoming.building (h : Upcoming pid kind generation s) (hi : Inv env cfg L₀ s) :
    Building env cfg L₀ pid kind generation [] s :=
  ⟨hi, h.held, h.future, List.nodup_nil, by simp, by simp⟩

theorem bisect_error {slices : List Slice} {i : Nat} {e : Status}
    (h : bisect slices i = .error e) : e ≠ .ok := by
  unfold bisect at h
  split at h
  · cases h
    simp
  · split at h
    · cases h
      simp
    · split at h
      · cases h
        simp
      · cases h

/-- What `write_segments` leaves.  Unless some slice is found too large, the plan is followed as it
is, and only the checks or a step that fails can stop it. -/
def SegmentsWritten (env : Env) (cfg : Config) (L₀ : Logical) (pid : Pid) (kind : SegmentKind)
    (generation : Nat) (units : List SegmentUnit) (check : Nat → Status) (slices : List Slice)
    (w : Written) (s : State) : Prop :=
  (w.status = .ok ∧ ∃ slices', Covers slices' 0 units.length ∧ check slices'.length = .ok ∧
    planCheck env cfg kind generation units slices' = .ok ∧
    (planCheck env cfg kind generation units slices ≠ .segmentCapacityExceeded →
      slices' = slices) ∧
    Complete env cfg L₀ pid kind generation units slices' w s) ∨
  (w.status ≠ .ok ∧ BuildingDirs env cfg L₀ pid kind generation w.dirs s ∧
    (planCheck env cfg kind generation units slices ≠ .segmentCapacityExceeded →
      w.status = (check slices.length).next (planCheck env cfg kind generation units slices) ∨
        s.Faulty pid))

instance {units : List SegmentUnit} {check : Nat → Status} {slices : List Slice} {w : Written} :
    Stable (Rely env cfg L₀) pid
      (SegmentsWritten env cfg L₀ pid kind generation units check slices w) := by
  unfold SegmentsWritten
  infer_instance

/-- **The specification of `write_segments`.** -/
theorem writeSegments_spec {units : List SegmentUnit} {check : Nat → Status}
    {cleanup : List SegmentId → Code Unit}
    (hclean : ∀ ids, Spec env cfg L₀ strict pid
      (Cleaning env cfg L₀ pid (fun s => F s ∧ Upcoming pid kind generation s) ids) (cleanup ids)
      fun _ => Cleaning env cfg L₀ pid (fun s => F s ∧ Upcoming pid kind generation s) ids)
    (fuel : Nat) (slices : List Slice) (hfuel : 0 < fuel) (hc : Covers slices 0 units.length) :
    Spec env cfg L₀ strict pid (fun s => F s ∧ Building env cfg L₀ pid kind generation [] s)
      (writeSegments env cfg kind generation units check cleanup fuel slices) fun w s => F s ∧
        SegmentsWritten env cfg L₀ pid kind generation units check slices w s := by
  induction fuel generalizing slices with
  | zero => omega
  | succ fuel ih =>
    rw [writeSegments]
    split
    · rename_i hcheck
      refine Spec.ret fun s h => ⟨h.1, Or.inr ⟨hcheck, ⟨[], h.2, rfl⟩, fun _ => Or.inl ?_⟩⟩
      rw [Status.next, if_neg hcheck]
    · rename_i hcheck
      rw [not_not] at hcheck
      refine Spec.bind (writeSlices_spec units [] slices 0 [] .nil) fun w => ?_
      have hend : ∀ s, (F s ∧ (w.failedSlice ≠ none → w.status = .segmentCapacityExceeded) ∧
          Outcome pid (planCheck env cfg kind generation units slices)
            (Complete env cfg L₀ pid kind generation units ([] ++ slices) w)
            (BuildingDirs env cfg L₀ pid kind generation w.dirs) w.status s) →
          F s ∧ SegmentsWritten env cfg L₀ pid kind generation units check slices w s := by
        rintro s ⟨hF, -, ⟨hok, hplan, hdone⟩ | ⟨hne, hleft, hwhy⟩⟩
        · exact ⟨hF, Or.inl ⟨hok, slices, hc, hcheck, hplan, fun _ => rfl, hdone⟩⟩
        · refine ⟨hF, Or.inr ⟨hne, hleft, fun _ => ?_⟩⟩
          rw [hcheck]
          exact hwhy.imp_right (·.2)
      cases hfailed : w.failedSlice with
      | none => exact Spec.ret fun s h => hend s (by rw [hfailed]; exact h)
      | some i =>
        dsimp only
        split
        · exact Spec.ret fun s h => hend s (by rw [hfailed]; exact h)
        · -- a slice was too large: what follows does not matter to those who know it was not
          have hlarge : ∀ s, (F s ∧ (some i ≠ none → w.status = .segmentCapacityExceeded) ∧
              Outcome pid (planCheck env cfg kind generation units slices)
                (Complete env cfg L₀ pid kind generation units ([] ++ slices) w)
                (BuildingDirs env cfg L₀ pid kind generation w.dirs) w.status s) →
              planCheck env cfg kind generation units slices = .segmentCapacityExceeded ∧
              Cleaning env cfg L₀ pid (fun s => F s ∧ Upcoming pid kind generation s) w.dirs s := by
            rintro s ⟨hF, hcap, hout⟩
            have hcap := hcap (by simp)
            rcases hout with ⟨hok, -⟩ | ⟨hne, ⟨dirs, hB, hdirs⟩, hwhy⟩
            · rw [hok] at hcap
              cases hcap
            · refine ⟨?_, ⟨hF, hB.upcoming⟩, hdirs ▸ hB.disposable, hB.inv⟩
              rcases hwhy with hwhy | ⟨hno, -⟩
              · exact hwhy.symm.trans hcap
              · exact absurd hcap hno
          intro s hs
          obtain ⟨hplan, hs⟩ := hlarge s hs
          refine (Spec.bind (hclean w.dirs) fun _ => ?_) s hs
          cases hb : bisect slices i with
          | error e =>
            refine Spec.ret fun s h => ⟨h.1.1, Or.inr ⟨bisect_error hb, ?_, fun h => ?_⟩⟩
            · exact ⟨[], h.1.2.building h.2.2, rfl⟩
            · exact absurd hplan h
          | ok slices' =>
            cases fuel with
            | zero =>
              refine Spec.ret fun s h => ⟨h.1.1, Or.inr ⟨by simp, ?_, fun h => ?_⟩⟩
              · exact ⟨[], h.1.2.building h.2.2, rfl⟩
              · exact absurd hplan h
            | succ fuel =>
              refine (ih slices' (Nat.succ_pos fuel) (bisect_covers hc hb)).conseq
                (fun s h => ⟨h.1.1, h.1.2.building h.2.2⟩) ?_
              rintro w s ⟨hF, ⟨hok, slices'', h₁, h₂, h₃, -, h₅⟩ | ⟨hne, hleft, -⟩⟩
              · exact ⟨hF, Or.inl ⟨hok, slices'', h₁, h₂, h₃, fun h => absurd hplan h, h₅⟩⟩
              · exact ⟨hF, Or.inr ⟨hne, hleft, fun h => absurd hplan h⟩⟩

end Write

/-! ## The contents of the segments of a plan -/

section Segments

variable {generation : Nat} {units : List SegmentUnit} {slices : List Slice}
  {ds : List SegmentDescriptor}

/-- The slices of a plan are as the units of a segment should be. -/
theorem unitsOk_slice (hc : Covers slices 0 units.length) (hok : ∀ u ∈ units, u.Ok cfg)
    (hnd : (units.map SegmentUnit.id).Nodup) : ∀ slice ∈ slices, UnitsOk cfg (slice.units units) := by
  intro slice hslice
  have hflat := flatten_units hc
  have hmem : slice.units units ∈ slices.map (·.units units) :=
    List.mem_map.mpr ⟨slice, hslice, rfl⟩
  refine unitsOk_of_mem_parts ?_ ?_ hmem
  · rwa [hflat]
  · rwa [hflat]

theorem SegmentsOf.described (h : SegmentsOf env cfg generation units slices ds)
    (hg : 0 < generation) (hok : ∀ slice ∈ slices, UnitsOk cfg (slice.units units)) :
    ∀ d ∈ ds, Described env cfg generation d := by
  induction h with
  | nil => simp
  | cons hd _ ih =>
    rw [List.forall_mem_cons] at hok ⊢
    exact ⟨⟨generation, _, hd, hok.1, hg, le_rfl⟩, ih hok.2⟩

/-- **The events of the segments of a plan** are those of its slices. -/
theorem SegmentsOf.events (h : SegmentsOf env cfg generation units slices ds)
    (hok : ∀ slice ∈ slices, UnitsOk cfg (slice.units units)) :
    segmentEvents ds = (slices.map (·.units units)).flatMap (unitEvents env cfg) := by
  induction h with
  | nil => rfl
  | cons hd _ ih =>
    rw [List.forall_mem_cons] at hok
    rw [segmentEvents, List.flatMap_cons, ← segmentEvents, ih hok.2, List.map_cons,
      List.flatMap_cons, hd, describe_events hok.1]

theorem mem_segmentDirs {d : SegmentDescriptor} (hd : d ∈ ds) : (d.id, d.file) ∈ segmentDirs ds :=
  List.mem_map.mpr ⟨d, hd, rfl⟩

/-- **Segments that are complete are ready to be published.** -/
theorem Building.newSegments {kind : SegmentKind} {s : State}
    (h : Building env cfg L₀ pid kind generation (segmentDirs ds) s) : NewSegments kind ds s where
  kinds d hd := (h.names _ (mem_segmentDirs hd)).1
  fresh d hd := h.fresh (h.names _ (mem_segmentDirs hd)).1 (h.names _ (mem_segmentDirs hd)).2
  files d hd c := by
    rw [State.file, h.content _ (mem_segmentDirs hd)]
    rfl

theorem Building.nodup_ids {kind : SegmentKind} {s : State}
    (h : Building env cfg L₀ pid kind generation (segmentDirs ds) s) : (ds.map (·.id)).Nodup := by
  have := h.nodup
  rwa [segmentDirs, List.map_map] at this

end Segments

end Yappod
