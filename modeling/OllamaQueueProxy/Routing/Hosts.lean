import OllamaQueueProxy.Library.Transition
import OllamaQueueProxy.Routing.Table

/-!
# The hosts of a routing table

What the tasks of the application do to a routing table.  They change what is known of the
hosts, but the hosts themselves, with their names, URLs and weights, stay those that were
configured (`Configured.act`).
-/

open Transition

namespace OllamaQueueProxy

/-- What other tasks do to the routing table. -/
inductive TableAction where
  /-- A poll of the host ends. -/
  | poll (name : String) (answer : Option (List String))
  /-- Another request picks a host for its model. -/
  | pick (model : RequestedModel)
  | markUnhealthy (name : String)
  | invalidate (name model : String)
  | countHandled (name : String)

def RoutingTable.act (r : RoutingTable) : TableAction → RoutingTable
  | .poll name answer => r.pollHost name answer
  | .pick model => match r.pick model with
    | none => r
    | some (_, r') => r'
  | .markUnhealthy name => r.markUnhealthy name
  | .invalidate name model => r.invalidate name model
  | .countHandled name => r.countHandled name

/-- The transitions of a routing table. -/
abbrev TableStep : RoutingTable → TableAction → RoutingTable → Prop :=
  fun r a r' => r.act a = r'

/-- What of a host never changes. -/
structure HostIdentity where
  name : String
  url : String
  weight : ℕ
  deriving DecidableEq

def HostConfig.identity (h : HostConfig) : HostIdentity := ⟨h.name, h.url, h.weight⟩

def HostRoutingState.identity (st : HostRoutingState) : HostIdentity :=
  ⟨st.name, st.url, st.weight⟩

namespace RoutingTable

def names (r : RoutingTable) : List String := r.states.map HostRoutingState.name

def identities (r : RoutingTable) : List HostIdentity := r.states.map HostRoutingState.identity

variable {r r' : RoutingTable} {model : RequestedModel}

/-! ### The candidates -/

/-- If some host is reachable, the candidates are the reachable hosts. -/
theorem candidates_of_reachable (h : ∃ st ∈ r.states, st.reachable = true) :
  r.candidates = r.states.filter HostRoutingState.reachable ∧ r.candidates ≠ []
  := by
  obtain ⟨st, hst, hreachable⟩ := h
  have hmem : st ∈ r.states.filter HostRoutingState.reachable :=
    List.mem_filter.mpr ⟨hst, hreachable⟩
  have hne : r.states.filter HostRoutingState.reachable ≠ [] := List.ne_nil_of_mem hmem
  have hcandidates : r.candidates = r.states.filter HostRoutingState.reachable := by
    simp only [candidates]
    rw [if_neg]
    simpa using hne
  rw [hcandidates]
  use rfl

theorem candidates_subset (r : RoutingTable) :
  r.candidates ⊆ r.states
  := by
  unfold candidates
  dsimp only
  split
  · exact List.Subset.refl _
  · exact List.filter_subset_self _

theorem withModel_subset {cs : List HostRoutingState} (h : r.withModel model = some cs) :
  cs ⊆ r.candidates
  := by
  cases model with
  | none | unnamed =>
      obtain rfl := Option.some.inj h
      exact List.nil_subset _
  | named m =>
      obtain rfl := Option.some.inj h
      apply List.filter_subset_self
  | unhashable =>
      simp only [withModel] at h
      split_ifs at h
      obtain rfl := Option.some.inj h
      apply List.nil_subset

/-- The hosts over which `pick` runs its round-robin are candidates, and there are some if
there are candidates. -/
theorem choices_subset {reason : RoutingReason} {cs : List HostRoutingState}
    (h : r.choices model = some (reason, cs)) :
  cs ⊆ r.candidates ∧ (r.candidates ≠ [] → cs ≠ [])
  := by
  unfold choices at h
  split at h
  · obtain ⟨rfl, rfl⟩ := by simpa using h
    use List.Subset.refl _
    apply id
  · obtain ⟨rfl, rfl⟩ := by simpa using h
    use List.Subset.refl _
    apply id
  · obtain ⟨found, hfound, hchoice⟩ := Option.map_eq_some_iff.mp h
    split_ifs at hchoice with hempty
    · obtain ⟨rfl, rfl⟩ := by simpa using hchoice
      use List.Subset.refl _
      apply id
    · obtain ⟨rfl, rfl⟩ := by simpa using hchoice
      use withModel_subset hfound
      intro _
      simpa using hempty


/-! ### The states -/

variable {host : String} {f : HostRoutingState → HostRoutingState}

theorem names_modify (hname : ∀ st, (f st).name = st.name) :
  (r.modify host f).names = r.names
  := by
  unfold names modify
  rw [List.map_map]
  apply List.map_congr_left
  intro st _
  rw [Function.comp_apply]
  split
  · apply hname
  · rfl

theorem mem_insert {states : List HostRoutingState} {st st' : HostRoutingState}
    (h : st ∈ insert states st') :
  st ∈ states ∨ st = st'
  := by
  unfold insert at h
  split at h
  · obtain ⟨st₀, hst₀, rfl⟩ := List.mem_map.mp h
    split
    · exact .inr rfl
    · exact .inl hst₀
  · obtain hold | hnew := List.mem_append.mp h
    · exact .inl hold
    · exact .inr (List.mem_singleton.mp hnew)

/-- A state that is stored adds its name, unless it is there. -/
theorem names_insert (states : List HostRoutingState) (st : HostRoutingState) :
  (insert states st).map HostRoutingState.name = if st.name ∈ states.map HostRoutingState.name
    then states.map HostRoutingState.name else states.map HostRoutingState.name ++ [st.name]
  := by
  have hany : states.any (fun s => s.name == st.name) = true
      ↔ st.name ∈ states.map HostRoutingState.name := by
    simp [List.any_eq_true]
  unfold insert
  by_cases hmem : st.name ∈ states.map HostRoutingState.name
  · rw [if_pos (hany.mpr hmem), if_pos hmem, List.map_map]
    apply List.map_congr_left
    intro s _
    rw [Function.comp_apply]
    split
    · symm
      assumption
    · rfl
  · rw [if_neg (fun h => hmem (hany.mp h)), if_neg hmem, List.map_append]
    rfl

/-- The states of the hosts that are stored in order, after others. -/
structure Stored (hosts : List HostConfig) (states states' : List HostRoutingState) : Prop where
  mem : ∀ st ∈ states', st ∈ states ∨ ∃ h ∈ hosts, st = .new h
  nodup : (states.map HostRoutingState.name).Nodup → (states'.map HostRoutingState.name).Nodup
  kept : ∀ name ∈ states.map HostRoutingState.name, name ∈ states'.map HostRoutingState.name
  known : ∀ h ∈ hosts, h.name ∈ states'.map HostRoutingState.name

theorem stored_foldl (hosts : List HostConfig) (states : List HostRoutingState) :
  Stored hosts states (hosts.foldl (fun states h => insert states (.new h)) states)
  := by
  induction hosts generalizing states with
  | nil =>
      refine ⟨?_, id, fun _ => id, List.forall_mem_nil _⟩
      intro st hst
      exact .inl hst
  | cons host hosts ih =>
      obtain ⟨hmem, hnodup, hkept, hknown⟩ := ih (insert states (.new host))
      have hnames := names_insert states (.new host)
      have hself : host.name ∈ (insert states (.new host)).map HostRoutingState.name := by
        rw [hnames]
        split
        · assumption
        · exact List.mem_append_right _ (List.mem_singleton_self _)
      constructor
      · intro st hst
        obtain hinsert | ⟨h, hh, rfl⟩ := hmem st hst
        · obtain hold | rfl := mem_insert hinsert
          · exact .inl hold
          · exact .inr ⟨host, List.mem_cons_self, rfl⟩
        · exact .inr ⟨h, List.mem_cons_of_mem _ hh, rfl⟩
      · intro hdistinct
        apply hnodup
        rw [hnames]
        split
        · exact hdistinct
        · rename_i hnew
          rw [← List.concat_eq_append]
          exact hdistinct.concat hnew
      · intro name hname
        apply hkept
        rw [hnames]
        split
        · exact hname
        · exact List.mem_append_left _ hname
      · intro h hh
        obtain rfl | hrest := List.mem_cons.mp hh
        · exact hkept _ hself
        · exact hknown h hrest

variable {hosts : List HostConfig} {strategy : Strategy}

/-- The states of a new table are those of hosts that have not been polled. -/
theorem mem_states_new {st : HostRoutingState} (h : st ∈ (new hosts strategy).states) :
  ∃ host ∈ hosts, st = .new host
  := ((stored_foldl hosts []).mem st h).resolve_left List.not_mem_nil

/-- What `pick` does to the table, if it raises nothing. -/
theorem pick_cases {picked : Option HostRoutingState} (h : r.pick model = some (picked, r')) :
  ∃ reason cs, r.choices model = some (reason, cs)
    ∧ ((RoundRobin.slot HostRoutingState.weight cs r.rrCounter = none ∧ picked = none ∧ r' = r)
      ∨ ∃ host, RoundRobin.slot HostRoutingState.weight cs r.rrCounter = some host
        ∧ picked = some host ∧ r' = { r with
          rrCounter := r.rrCounter + 1
          decisions := r.decisions.count reason })
  := by
  obtain ⟨⟨reason, cs⟩, hchoices, hpick⟩ := Option.map_eq_some_iff.mp h
  use reason, cs, hchoices
  dsimp only at hpick
  split at hpick
  · rename_i hslot
    obtain ⟨rfl, rfl⟩ := Prod.mk.inj hpick
    exact .inl ⟨hslot, rfl, rfl⟩
  · rename_i host hslot
    obtain ⟨rfl, rfl⟩ := Prod.mk.inj hpick
    exact .inr ⟨host, hslot, rfl, rfl⟩

/-- Picking a host changes neither the hosts nor what is counted for them. -/
theorem states_of_pick {picked : Option HostRoutingState}
    (h : r.pick model = some (picked, r')) :
  r'.states = r.states ∧ ∀ st ∈ picked, st.name ∈ r.names
  := by
  obtain ⟨reason, cs, hchoices, ⟨-, rfl, rfl⟩ | ⟨host, hslot, rfl, rfl⟩⟩ := pick_cases h
  · exact ⟨rfl, fun st hst => absurd hst (Option.not_mem_none st)⟩
  · use rfl
    intro st hst
    obtain rfl := Option.mem_some_iff.mp hst
    apply List.mem_map_of_mem
    apply candidates_subset r
    exact (choices_subset hchoices).1 (RoundRobin.slot_eq_some_iff.mp hslot).mem

/-! ### What stays of the hosts -/

/-- No task changes the strategy. -/
theorem strategy_act (r : RoutingTable) (a : TableAction) :
  (r.act a).strategy = r.strategy
  := by
  cases a with
  | pick model =>
      simp only [act]
      split
      · rfl
      · rename_i picked r' hpick
        obtain ⟨-, -, -, ⟨-, -, rfl⟩ | ⟨-, -, -, rfl⟩⟩ := pick_cases hpick <;> rfl
  | poll | markUnhealthy | invalidate | countHandled => rfl

theorem identities_modify (hf : ∀ st, (f st).identity = st.identity) :
  (r.modify host f).identities = r.identities
  := by
  unfold identities modify
  rw [List.map_map]
  apply List.map_congr_left
  intro st _
  rw [Function.comp_apply]
  split
  · apply hf
  · rfl

/-- No task changes the hosts. -/
theorem identities_act (r : RoutingTable) (a : TableAction) :
  (r.act a).identities = r.identities
  := by
  cases a with
  | pick model =>
      simp only [act]
      split
      · rfl
      · rename_i picked r' hpick
        rw [identities, (states_of_pick hpick).1]
        rfl
  | poll name answer =>
      apply identities_modify
      intro st
      cases answer <;> rfl
  | markUnhealthy | invalidate | countHandled =>
      apply identities_modify
      intro st
      rfl

/-- The hosts of the table are configured ones, under different names. -/
structure Configured (hosts : List HostConfig) (r : RoutingTable) : Prop where
  host : ∀ st ∈ r.states, ∃ h ∈ hosts, st.identity = h.identity
  nodup : r.names.Nodup
  known : ∀ h ∈ hosts, h.name ∈ r.names

theorem names_eq (r : RoutingTable) :
  r.names = r.identities.map HostIdentity.name
  := by
  unfold names identities
  rw [List.map_map]
  rfl

theorem Configured.new (hosts : List HostConfig) (strategy : Strategy) :
  Configured hosts (new hosts strategy)
  := by
  have hstored := stored_foldl hosts []
  constructor
  · intro st hst
    obtain ⟨h, hh, rfl⟩ := mem_states_new hst
    exact ⟨h, hh, rfl⟩
  · exact hstored.nodup List.nodup_nil
  · exact hstored.known

theorem Configured.congr (h : Configured hosts r)
    (hsame : r'.identities = r.identities) :
  Configured hosts r'
  := by
  have hnames : r'.names = r.names := by rw [names_eq, names_eq, hsame]
  constructor
  · intro st hst
    have hmem : st.identity ∈ r'.identities := List.mem_map_of_mem hst
    rw [hsame] at hmem
    obtain ⟨st', hst', heq⟩ := List.mem_map.mp hmem
    rw [← heq]
    exact h.host st' hst'
  · rw [hnames]
    exact h.nodup
  · rw [hnames]
    exact h.known

theorem Configured.act (h : Configured hosts r) (a : TableAction) :
  Configured hosts (r.act a)
  := h.congr (identities_act r a)

theorem Configured.of_pick (h : Configured hosts r) {picked : Option HostRoutingState}
    (hpick : r.pick model = some (picked, r')) :
  Configured hosts r'
  := by
  apply h.congr
  rw [identities, identities, (states_of_pick hpick).1]

theorem Configured.names_subset (h : Configured hosts r) :
  r.names ⊆ hosts.map HostConfig.name
  := by
  intro name hname
  obtain ⟨st, hst, rfl⟩ := List.mem_map.mp hname
  obtain ⟨host, hhost, hsame⟩ := h.host st hst
  rw [show st.name = host.name from congrArg HostIdentity.name hsame]
  exact List.mem_map_of_mem hhost

end RoutingTable

end OllamaQueueProxy
