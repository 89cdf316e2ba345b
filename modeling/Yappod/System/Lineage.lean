import Yappod.System.Runs

/-!
# What becomes of the segments of an index

A manifest refers to its segments by the names of their directories, and whatever outlives a manifest
— a cached search structure, a cursor, a snapshot that is still open — refers to segments and manifests
of the past by name and by generation.  That this is sound rests on what becomes of segments over a run.

* `Manifest.Hides` says that a later segment of the manifest has an event for a document, so that what
  a segment has for it is not shown.
* `Manifest.Succeeds` relates a manifest to an earlier one: what is left of the old segments is left in
  its order, a name that was in use stands for the same segment or for none, what was hidden stays
  hidden, and a generation stands for one manifest.
* `manifests_succeed` — every manifest of a run is related so to those before it.
-/

set_option autoImplicit false

namespace Yappod

open scoped List

/-! ## Manifests that follow one another -/

/-- A segment after `d` has an event for the document. -/
def Manifest.Hides (m : Manifest) (d : SegmentDescriptor) (id : Bytes) : Prop :=
  ∃ e, [d, e] <+ m.segments ∧ lastEvent e.contents.events id ≠ none

/-- A manifest that follows another, when `names` are the names that have been in use by then. -/
structure Manifest.Succeeds (names : List SegmentId) (m m' : Manifest) : Prop where
  generation : m.generation ≤ m'.generation
  same : m'.generation = m.generation → m' = m
  kept : (m'.segments.filter fun d => d.id ∈ names) <+ m.segments
  hidden : ∀ d ∈ m.segments, d ∈ m'.segments → ∀ id, m.Hides d id → m'.Hides d id

/-- What holds between a state of the index directory and a later one. -/
structure State.Precedes (s s' : State) : Prop where
  names : s.history.names ⊆ s'.history.names
  manifest : ∀ m m', s.disk.manifest = some m → s'.disk.manifest = some m' → m.Succeeds s.history.names m'

variable {env : Env} {cfg : Config} {L₀ : Logical} {m m' m'' : Manifest} {names names' : List SegmentId} {s s' : State}

theorem Manifest.Succeeds.refl (names : List SegmentId) (m : Manifest) : m.Succeeds names m where
  generation := le_rfl
  same _ := rfl
  kept := List.filter_sublist
  hidden _ _ _ _ h := h

/-- A segment whose name was in use was there before. -/
theorem Manifest.Succeeds.mem (h : m.Succeeds names m') {d : SegmentDescriptor} (hd : d ∈ m'.segments)
    (hid : d.id ∈ names) : d ∈ m.segments :=
  h.kept.subset (List.mem_filter.mpr ⟨hd, decide_eq_true hid⟩)

theorem Manifest.Succeeds.trans (h : m.Succeeds names m') (h' : m'.Succeeds names' m'') (hnames : names ⊆ names')
    (hlisted : ∀ id ∈ m.ids, id ∈ names) : m.Succeeds names m'' where
  generation := h.generation.trans h'.generation
  same heq := by
    have hle := h.generation
    have hle' := h'.generation
    rw [h'.same (by omega), h.same (by omega)]
  kept := by
    have hfilter : (m''.segments.filter fun d => d.id ∈ names) =
        (m''.segments.filter fun d => d.id ∈ names').filter fun d => d.id ∈ names := by
      rw [List.filter_filter]
      refine List.filter_congr fun d _ => ?_
      have := @hnames d.id
      by_cases hd : d.id ∈ names <;> simp [hd, this]
    rw [hfilter]
    exact (h'.kept.filter _).trans h.kept
  hidden d hd hd' id hhides := by
    have hid := hlisted d.id (List.mem_map.mpr ⟨d, hd, rfl⟩)
    have hmid := h'.mem hd' (hnames hid)
    exact h'.hidden d hmid hd' id (h.hidden d hd hmid id hhides)

/-- A document has an event in a run of segments if it has one in a segment of it. -/
theorem lastEvent_segmentEvents_ne_none {ds : List SegmentDescriptor} {id : Bytes} :
    lastEvent (segmentEvents ds) id ≠ none ↔ ∃ d ∈ ds, lastEvent d.contents.events id ≠ none := by
  simp only [ne_eq, lastEvent_eq_none, segmentEvents, List.mem_flatMap]
  push Not
  constructor
  · rintro ⟨e, ⟨d, hd, he⟩, hid⟩
    exact ⟨d, hd, e, he, hid⟩
  · rintro ⟨d, hd, e, he, hid⟩
    exact ⟨e, ⟨d, hd, he⟩, hid⟩

/-! ## What is published -/

/-- New segments are not among those in use. -/
theorem NewSegments.filter_names {kind : SegmentKind} {ds : List SegmentDescriptor} (h : NewSegments kind ds s) :
    (ds.filter fun d => d.id ∈ s.history.names) = [] :=
  List.filter_eq_nil_iff.mpr fun d hd => by simp [h.fresh d hd]

/-- An update puts segments after the others. -/
theorem Manifest.Succeeds.append {ds : List SegmentDescriptor} (hgeneration : m'.generation = m.generation + 1)
    (hsegments : m'.segments = m.segments ++ ds) (hnew : NewSegments .seg ds s) : m.Succeeds s.history.names m' where
  generation := by omega
  same heq := by omega
  kept := by
    rw [hsegments, List.filter_append, hnew.filter_names, List.append_nil]
    exact List.filter_sublist
  hidden d _ _ id := by
    rintro ⟨e, hsub, he⟩
    exact ⟨e, hsegments ▸ hsub.trans (List.sublist_append_left ..), he⟩

/-- A pair that is in order in a list with a middle part, and whose first element is not in that part. -/
theorem pair_sublist_cases {α : Type} {pre mid post : List α} {d e : α} (h : [d, e] <+ pre ++ (mid ++ post))
    (hmid : d ∉ mid) : [d, e] <+ pre ++ post ∨ (d ∈ pre ∧ e ∈ mid) := by
  obtain ⟨l₁, l₂, heq, h₁, h₂⟩ := List.sublist_append_iff.mp h
  obtain ⟨l₃, l₄, rfl, h₃, h₄⟩ := List.sublist_append_iff.mp h₂
  rcases l₃ with _ | ⟨x, l₃⟩
  · rw [heq]
    exact .inl (h₁.append h₄)
  · have hx : x ∈ mid := h₃.subset (List.mem_cons_self ..)
    match l₁, heq with
    | [], heq =>
      rw [List.nil_append, List.cons_append, List.cons.injEq] at heq
      exact absurd (heq.1 ▸ hx) hmid
    | [_], heq =>
      rw [List.cons_append, List.nil_append, List.cons_append, List.cons.injEq, List.cons.injEq] at heq
      exact .inr ⟨heq.1 ▸ h₁.subset (List.mem_cons_self ..), heq.2.1 ▸ hx⟩
    | _ :: _ :: _, heq =>
      have := congrArg List.length heq
      simp at this

/-- A compaction puts segments in the place of others. -/
theorem Manifest.Succeeds.replace {pre old new post : List SegmentDescriptor}
    (hgeneration : m'.generation = m.generation + 1) (hsegments : m.segments = pre ++ old ++ post)
    (hsegments' : m'.segments = pre ++ new ++ post) (hstands : StandsFor pre old new) (hnew : NewSegments .compact new s)
    (hnodup : m.ids.Nodup) (hlisted : ∀ id ∈ m.ids, id ∈ s.history.names) : m.Succeeds s.history.names m' where
  generation := by omega
  same heq := by omega
  kept := by
    rw [hsegments', hsegments, List.filter_append, List.filter_append, hnew.filter_names, List.append_nil]
    exact (List.filter_sublist.trans (List.sublist_append_left ..)).append List.filter_sublist
  hidden d hd hd' id := by
    rintro ⟨e, hsub, he⟩
    have hnodup : m.segments.Nodup := hnodup.of_map
    rw [hsegments, List.append_assoc] at hnodup hsub
    rw [List.nodup_append, List.nodup_append] at hnodup
    obtain ⟨-, ⟨-, -, hpost⟩, hpre⟩ := hnodup
    -- a segment that is compacted is not listed any more
    have hout : d ∉ old := fun h => by
      rw [hsegments', List.append_assoc, List.mem_append, List.mem_append] at hd'
      rcases hd' with h' | h' | h'
      · exact hpre d h' d (List.mem_append_left _ h) rfl
      · exact hnew.fresh d h' (hlisted d.id (List.mem_map.mpr ⟨d, hd, rfl⟩))
      · exact hpost d h d h' rfl
    rw [Manifest.Hides, hsegments', List.append_assoc]
    rcases pair_sublist_cases hsub hout with hsub | ⟨hd, heold⟩
    · exact ⟨e, hsub.trans ((List.Sublist.refl pre).append (List.sublist_append_right ..)), he⟩
    · rcases hstands with hlast | ⟨rfl, -⟩
      · obtain ⟨e', he', hid⟩ := lastEvent_segmentEvents_ne_none.mp
          (hlast id ▸ lastEvent_segmentEvents_ne_none.mpr ⟨e, heold, he⟩)
        have hpair : [d, e'] <+ pre ++ new :=
          (List.singleton_sublist.mpr hd).append (List.singleton_sublist.mpr he')
        exact ⟨e', hpair.trans ((List.Sublist.refl pre).append (List.sublist_append_left ..)), hid⟩
      · cases hd

/-! ## Over a run -/

theorem State.Precedes.of_same (hmanifest : s'.disk.manifest = s.disk.manifest)
    (hnames : s'.history.names = s.history.names) : s.Precedes s' where
  names := hnames ▸ List.Subset.refl _
  manifest m m' hm hm' := by
    rw [hmanifest, hm, Option.some.injEq] at hm'
    exact hm' ▸ .refl _ m

/-- **What a step does to the manifest.** -/
theorem Guar.precedes {pid : Pid} (hg : Guar env cfg pid s s') (hinv : Inv env cfg L₀ s) : s.Precedes s' := by
  obtain ⟨m, hm⟩ := hinv
  have hmanifest : s.disk.manifest = some m := hm.ledger.manifest
  cases hg.effect with
  | none ledger dirs => exact .of_same (congrArg Ledger.manifest ledger) (congrArg Ledger.names ledger)
  | dir id ledger others held unlisted =>
    exact .of_same (congrArg Ledger.manifest ledger) (congrArg Ledger.names ledger)
  | installWal m w eq =>
    subst eq
    exact .of_same rfl rfl
  | removeWal eq =>
    subst eq
    exact .of_same rfl rfl
  | withdrawWal eq =>
    subst eq
    exact .of_same rfl rfl
  | update m₁ m' ops ds eq held manifest generation segments ok listed new =>
    subst eq
    refine ⟨List.subset_append_right .., fun m₂ m₃ hm₂ hm₃ => ?_⟩
    cases manifest.symm.trans hm₂
    cases hm₃
    exact .append generation segments new
  | compaction m₁ m' pre old new post eq writer compaction manifest generation segments segments' stands ok hnew =>
    subst eq
    refine ⟨List.subset_append_right .., fun m₂ m₃ hm₂ hm₃ => ?_⟩
    cases manifest.symm.trans hm₂
    cases hm₃
    cases manifest.symm.trans hmanifest
    exact .replace generation segments segments' stands hnew
      (manifestValidate_eq_ok.mp hm.ledger.ok.valid).2.2.2.2 hm.ledger.listed

theorem State.Precedes.trans {a b c : State} (ha : Inv env cfg L₀ a) (hb : Inv env cfg L₀ b) (h : a.Precedes b)
    (h' : b.Precedes c) : a.Precedes c where
  names := List.Subset.trans h.names h'.names
  manifest m m'' hm hm'' := by
    obtain ⟨m₁, hm₁⟩ := ha
    obtain ⟨m', hm'⟩ := hb
    cases hm.symm.trans hm₁.ledger.manifest
    exact (h.manifest m m' hm hm'.ledger.manifest).trans (h'.manifest m' m'' hm'.ledger.manifest hm'') h.names
      hm₁.ledger.listed

/-- A run from one configuration to another. -/
abbrev Continues (env : Env) (cfg : Config) (c c' : System) : Prop :=
  Sys.Reach exec State.idle State.release (program env cfg) c c'

theorem Continues.reachable {s₀ : State} {c c' : System} (hrun : Continues env cfg c c') (h : Reachable env cfg s₀ c) :
    Reachable env cfg s₀ c' := by
  induction hrun with
  | refl => exact h
  | step l _ hl ih => exact .step l ih hl

theorem Reachable.precedes {s₀ : State} (h₀ : Opened env cfg m s₀) {c c' : System} (h : Reachable env cfg s₀ c)
    (hrun : Continues env cfg c c') : c.state.Precedes c'.state := by
  have hgood := h.good h₀
  have hrelease : ∀ {pid s}, Inv env cfg m.logical s → Inv env cfg m.logical (s.release pid) :=
    fun {_ _} hs => Sys.Sound.crash_inv sound hs
  have hall : Inv env cfg m.logical c.state → Inv env cfg m.logical c'.state ∧ c.state.Precedes c'.state := by
    refine Sys.Reach.later (P := fun s s' => Inv env cfg m.logical s → Inv env cfg m.logical s' ∧ s.Precedes s') sound
      (fun s hs => ⟨hs, .of_same rfl rfl⟩) (fun hab hbc ha => ?_) (fun hg hs => ⟨hg.inv hs, hg.precedes hs⟩)
      (fun _ s hs => ⟨hrelease hs, .of_same rfl rfl⟩) hgood hrun
    have hb := hab ha
    have hc := hbc hb.1
    exact ⟨hc.1, hb.2.trans ha hb.1 hc.2⟩
  exact (hall hgood.1).2

/-- **The manifests of a run.**  Take the manifest at any point of a run and the one at any later point, whatever
updates, recoveries and compactions have done, failed and died in between.  The generation has not gone down, and if
it is the same, so is the manifest.  A segment of the later manifest whose name any manifest had listed by then is
a segment of the earlier one, and such segments are in their old order: names are not used again, and a segment that
was dropped does not come back.  And what a later segment hid is hidden still. -/
theorem manifests_succeed {s₀ : State} (h₀ : Opened env cfg m s₀) {c c' : System} (h : Reachable env cfg s₀ c)
    (hrun : Continues env cfg c c') {m₁ m₂ : Manifest} (hm₁ : c.state.disk.manifest = some m₁)
    (hm₂ : c'.state.disk.manifest = some m₂) : m₁.Succeeds c.state.history.names m₂ :=
  (h.precedes h₀ hrun).manifest m₁ m₂ hm₁ hm₂

/-- What two stretches of a run of the small index show. -/
theorem exists_of_runs (labels more : List (Sys.Label Choice Call)) (check : System → System → Bool)
    (h : ((Sys.runAll exec State.idle State.release (program sampleEnv sampleConfig)
      ⟨emptyState, fun _ => none⟩ labels).any fun c =>
        (Sys.runAll exec State.idle State.release (program sampleEnv sampleConfig) c more).any (check c)) = true) :
    ∃ c c', Reachable sampleEnv sampleConfig emptyState c ∧ Continues sampleEnv sampleConfig c c' ∧
      check c c' = true := by
  obtain ⟨c, hrun, h⟩ := (Option.any_eq_true ..).mp h
  obtain ⟨c', hmore, hcheck⟩ := (Option.any_eq_true ..).mp h
  exact ⟨c, c', .of_runAll .refl hrun, .of_runAll .refl hmore, hcheck⟩

/-- The second process deletes the document `x`. -/
def deleteToEnd : List (Sys.Label Choice Call) :=
  [.spawn 2 (.apply [deleteX])] ++ steps 2 7 ++ [.act 2 (.suffix 0)] ++ steps 2 14 ++ [.finish 2]

theorem manifests_succeed_delete : ∃ c c' m₁ m₂, Reachable sampleEnv sampleConfig emptyState c ∧
    Continues sampleEnv sampleConfig c c' ∧ c.state.disk.manifest = some m₁ ∧ c'.state.disk.manifest = some m₂ ∧
    m₁.ids = [⟨.seg, 2, 0⟩] ∧ m₂.ids = [⟨.seg, 2, 0⟩, ⟨.seg, 3, 0⟩] ∧
    m₁.Succeeds c.state.history.names m₂ := by
  obtain ⟨c, c', hc, hrun, hcheck⟩ := exists_of_runs updateToEnd deleteToEnd (fun c c' =>
    c.state.disk.manifest.map Manifest.ids = some [⟨.seg, 2, 0⟩] ∧
      c'.state.disk.manifest.map Manifest.ids = some [⟨.seg, 2, 0⟩, ⟨.seg, 3, 0⟩]) (by decide +kernel)
  rw [decide_eq_true_eq, Option.map_eq_some_iff, Option.map_eq_some_iff] at hcheck
  obtain ⟨⟨m₁, hm₁, hids₁⟩, m₂, hm₂, hids₂⟩ := hcheck
  exact ⟨c, c', m₁, m₂, hc, hrun, hm₁, hm₂, hids₁, hids₂,
    manifests_succeed emptyState_opened hc hrun hm₁ hm₂⟩

end Yappod
