import OllamaQueueProxy.Routing.Hosts

/-!
# The selection of a host

What `pick` returns, from any table that the tasks of the application can reach: a configured
host, which is reachable if one is, and has the requested model if the strategy asks for it
and a candidate has it.  The counters of the decisions add up to the counter of the
round-robin (`pick_correct`).

While no host becomes reachable or unreachable, the round-robin runs over a fixed list, so
every candidate is picked as often as its weight says in as many picks as the total weight
(`returns_count`).
-/

open Transition

namespace OllamaQueueProxy

/-- The model of a request that names one by a string, or none. -/
def RequestedModel.ofString? (model : Option String) : RequestedModel :=
  match model with
  | Option.none => .none
  | some m => if m = "" then .none else .named m

/-- The number of all decisions. -/
def RoutingDecisions.total (d : RoutingDecisions) : ℕ := d.modelMatch + d.roundRobin + d.fallback

theorem RoutingDecisions.total_count (d : RoutingDecisions) (reason : RoutingReason) :
  (d.count reason).total = d.total + 1
  := by
  cases reason <;> simp only [count, total] <;> omega

namespace RoutingTable

/-- The host is reachable, or no host is. -/
def IsCandidate (r : RoutingTable) (st : HostRoutingState) : Prop :=
  st ∈ r.states ∧ ((∃ st' ∈ r.states, st'.reachable = true) → st.reachable = true)

/-- Hosts are chosen by their models, and some candidate has the model. -/
def Matches (r : RoutingTable) (model : Option String) : Prop :=
  r.strategy = .modelAware ∧ ∃ m, model = some m ∧ m ≠ ""
    ∧ ∃ st, r.IsCandidate st ∧ m ∈ st.installedModels

/-- It is right that `pick` returns the host for the model, and leaves the table `r'`. -/
structure Picks (hosts : List HostConfig) (r : RoutingTable) (model : Option String)
    (host : HostRoutingState) (r' : RoutingTable) : Prop where
  configured : host ∈ r.states ∧ ∃ h ∈ hosts, host.identity = h.identity
  reachable : (∃ st ∈ r.states, st.reachable = true) → host.reachable = true
  installed : r.Matches model → ∃ m, model = some m ∧ m ∈ host.installedModels
  counted : ∃ reason, r'.decisions = r.decisions.count reason
    ∧ (reason = .modelMatch ↔ r.Matches model)

variable {hosts : List HostConfig} {strategy : Strategy} {r r' : RoutingTable}

theorem mem_candidates {st : HostRoutingState} :
  st ∈ r.candidates ↔ r.IsCandidate st
  := by
  by_cases hreachable : ∃ st' ∈ r.states, st'.reachable = true
  · rw [(candidates_of_reachable hreachable).1, List.mem_filter, IsCandidate]
    apply and_congr_right'
    exact ⟨fun h _ => h, fun h => h hreachable⟩
  · have hnone : r.states.filter HostRoutingState.reachable = [] := by
      apply List.filter_eq_nil_iff.mpr
      intro st' hst' hr
      exact hreachable ⟨st', hst', hr⟩
    rw [candidates, hnone]
    exact ⟨fun h => ⟨h, fun hr => absurd hr hreachable⟩, fun h => h.1⟩

theorem exists_candidate (h : r.states ≠ []) :
  r.candidates ≠ []
  := by
  unfold candidates
  dsimp only
  split
  · exact h
  · rename_i hne
    simpa using hne

/-- The candidates that have the model. -/
def installed (r : RoutingTable) (m : String) : List HostRoutingState :=
  r.candidates.filter fun st => st.installedModels.contains m

theorem mem_installed {m : String} {st : HostRoutingState} :
  st ∈ r.installed m ↔ r.IsCandidate st ∧ m ∈ st.installedModels
  := by
  rw [installed, List.mem_filter, mem_candidates]
  apply and_congr_right'
  simp

theorem matches_iff {m : String} (hstrategy : r.strategy = .modelAware) (hm : m ≠ "") :
  r.Matches (some m) ↔ r.installed m ≠ []
  := by
  constructor
  · rintro ⟨-, m', hsame, -, st, hst⟩
    obtain rfl := Option.some.inj hsame
    exact List.ne_nil_of_mem (mem_installed.mpr hst)
  · intro hne
    obtain ⟨st, hst⟩ := List.exists_mem_of_ne_nil _ hne
    exact ⟨hstrategy, m, rfl, hm, st, mem_installed.mp hst⟩

/-- The hosts over which `pick` runs its round-robin are those for the model: they are chosen
for it exactly if some candidate has it, and then they all have it. -/
structure ChosenFor (r : RoutingTable) (model : Option String) (reason : RoutingReason)
    (cs : List HostRoutingState) : Prop where
  reason : reason = .modelMatch ↔ r.Matches model
  installed : r.Matches model → ∀ st ∈ cs, ∃ m, model = some m ∧ m ∈ st.installedModels

theorem ChosenFor.of_not_matches {model : Option String} {reason : RoutingReason}
    {cs : List HostRoutingState} (hreason : reason ≠ .modelMatch) (h : ¬ r.Matches model) :
  r.ChosenFor model reason cs
  := ⟨iff_of_false hreason h, fun hmatches => absurd hmatches h⟩

/-- The choice for a model that is named. -/
theorem choices_named {m : String} (hstrategy : r.strategy = .modelAware) (hm : m ≠ "") :
  ∃ reason cs, r.choices (.named m) = some (reason, cs) ∧ r.ChosenFor (some m) reason cs
  := by
  have hmatches := matches_iff hstrategy hm
  have hchoices : r.choices (.named m) = some (if (r.installed m).isEmpty
      then (.fallback, r.candidates) else (.modelMatch, r.installed m)) := by
    unfold choices
    rw [hstrategy]
    rfl
  rw [hchoices]
  split
  · rename_i hempty
    refine ⟨_, _, rfl, .of_not_matches RoutingReason.noConfusion ?_⟩
    rw [hmatches, not_not]
    exact List.isEmpty_iff.mp hempty
  · rename_i hne
    have hmatch : r.Matches (some m) := hmatches.mpr fun h => hne (List.isEmpty_iff.mpr h)
    refine ⟨_, _, rfl, iff_of_true rfl hmatch, ?_⟩
    intro _ st hst
    exact ⟨m, rfl, (mem_installed.mp hst).2⟩

theorem choices_ofString? (r : RoutingTable) (model : Option String) :
  ∃ reason cs, r.choices (.ofString? model) = some (reason, cs) ∧ r.ChosenFor model reason cs
  := by
  cases hstrategy : r.strategy with
  | roundRobin =>
      refine ⟨.roundRobin, r.candidates, ?_, .of_not_matches RoutingReason.noConfusion ?_⟩
      · unfold choices
        rw [hstrategy]
      · intro hmatches
        cases hstrategy.symm.trans hmatches.1
  | modelAware =>
      cases model with
      | none =>
          refine ⟨.roundRobin, r.candidates, ?_, .of_not_matches RoutingReason.noConfusion ?_⟩
          · unfold choices
            rw [hstrategy]
            rfl
          · rintro ⟨-, m, hm, -⟩
            cases hm
      | some m =>
          by_cases hm : m = ""
          · refine ⟨.roundRobin, r.candidates, ?_, .of_not_matches RoutingReason.noConfusion ?_⟩
            · unfold choices
              rw [hstrategy, RequestedModel.ofString?, if_pos hm]
            · rintro ⟨-, m', hsame, hne, -⟩
              exact hne ((Option.some.inj hsame).symm.trans hm)
          · rw [RequestedModel.ofString?, if_neg hm]
            exact choices_named hstrategy hm

theorem Configured.weight_pos (h : Configured hosts r) {st : HostRoutingState}
    (hst : st ∈ r.states) :
  0 < st.weight
  := by
  obtain ⟨host, -, hsame⟩ := h.host st hst
  have hweight : st.weight = host.weight := congrArg HostIdentity.weight hsame
  rw [hweight]
  exact host.positiveWeight

/-- From every table with configured hosts, `pick` returns a host, and it does so rightly. -/
theorem exists_picks (h : Configured hosts r) (hne : hosts ≠ []) (model : Option String) :
  ∃ host r', r.pick (.ofString? model) = some (some host, r') ∧ Picks hosts r model host r'
  := by
  obtain ⟨reason, cs, hchoices, hreason, hinstalled⟩ := choices_ofString? r model
  obtain ⟨hsubset, hnonempty⟩ := choices_subset hchoices
  have hstates : r.states ≠ [] := by
    obtain ⟨c, hc⟩ := List.exists_mem_of_ne_nil _ hne
    obtain ⟨st, hst, -⟩ := List.mem_map.mp (h.known c hc)
    exact List.ne_nil_of_mem hst
  obtain ⟨st, hst⟩ := List.exists_mem_of_ne_nil _ (hnonempty (exists_candidate hstates))
  have hweight : 0 < st.weight := h.weight_pos (mem_candidates.mp (hsubset hst)).1
  obtain ⟨host, hslot⟩ := RoundRobin.slot_isSome (w := HostRoutingState.weight)
    (c := r.rrCounter) (RoundRobin.total_pos hst hweight)
  have hhost : host ∈ cs := (RoundRobin.slot_eq_some_iff.mp hslot).mem
  obtain ⟨hmem, hreachable⟩ := mem_candidates.mp (hsubset hhost)
  use host, { r with rrCounter := r.rrCounter + 1, decisions := r.decisions.count reason }
  constructor
  · rw [pick, hchoices, Option.map_some]
    dsimp only
    rw [hslot]
  · refine ⟨⟨hmem, h.host host hmem⟩, hreachable, ?_, reason, rfl, hreason⟩
    intro hmatches
    exact hinstalled hmatches host hhost

/-! ### Runs -/

theorem configured_of_reachable (h : Reachable TableStep (new hosts strategy) r) :
  Configured hosts r
  := by
  apply h.invariant (Configured.new hosts strategy)
  rintro t a _ ht rfl
  exact ht.act a

/-- The round-robin counts the decisions. -/
def Tallied (r : RoutingTable) : Prop := r.decisions.total = r.rrCounter

theorem Tallied.act (h : Tallied r) (a : TableAction) :
  Tallied (r.act a)
  := by
  cases a with
  | pick model =>
      simp only [RoutingTable.act]
      split
      · exact h
      · rename_i picked r' hpick
        obtain ⟨reason, -, -, ⟨-, -, rfl⟩ | ⟨-, -, -, rfl⟩⟩ := pick_cases hpick
        · exact h
        · rw [Tallied, RoutingDecisions.total_count, h]
  | poll | markUnhealthy | invalidate | countHandled => exact h

/-- From every table that can be reached, `pick` returns a host, and it does so rightly; the
counters of the decisions add up to the one of the round-robin. -/
theorem pick_correct (hne : hosts ≠ []) (h : Reachable TableStep (new hosts strategy) r) :
  (∀ model, ∃ host r', r.pick (.ofString? model) = some (some host, r')
      ∧ Picks hosts r model host r')
    ∧ r.decisions.total = r.rrCounter
  := by
  constructor
  · intro model
    exact exists_picks (configured_of_reachable h) hne model
  · apply h.invariant (I := Tallied) rfl
    rintro t a _ ht rfl
    exact ht.act a

/-- Two hosts, the first with twice the weight of the second. -/
def weightedHosts : List HostConfig :=
  [⟨"http://a", "a", 2, Nat.two_pos⟩, ⟨"http://b", "b", 1, Nat.one_pos⟩]

/-- The second host has a model, the first has failed a request. -/
def polledTable : RoutingTable :=
  ((new weightedHosts .modelAware).act (.poll "b" (some ["m"]))).act (.markUnhealthy "a")

theorem pick_correct_polled :
  ∃ host r', polledTable.pick (.named "m") = some (some host, r')
    ∧ Picks weightedHosts polledTable (some "m") host r'
  := by
  have hreachable : Reachable TableStep (new weightedHosts .modelAware) polledTable :=
    ((Reachable.refl _).step (a := .poll "b" (some ["m"])) rfl).step (a := .markUnhealthy "a") rfl
  exact (pick_correct (by decide) hreachable).1 (some "m")

/-! ### The shares of the candidates -/

def TableAction.isPick : TableAction → Bool
  | .pick _ => true
  | _ => false

/-- The host that `pick` returns. -/
def returned? (r : RoutingTable) : TableAction → Option HostIdentity
  | .pick model => (r.pick model).bind fun (picked, _) => picked.map HostRoutingState.identity
  | _ => none

/-- The hosts that the calls of `pick` among the actions return, in order. -/
def returns : RoutingTable → List TableAction → List HostIdentity
  | _, [] => []
  | r, a :: as => (r.returned? a).toList ++ (r.act a).returns as

def withCounter (r : RoutingTable) (c : ℕ) : RoutingTable := { r with rrCounter := c }

/-- No host becomes reachable or unreachable. -/
def KeepsReachability (r : RoutingTable) (as : List TableAction) : Prop :=
  ∀ bs, bs <+: as →
    (bs.foldl act r).states.map HostRoutingState.reachable
      = r.states.map HostRoutingState.reachable

/-- The identities of the candidates, by their identities and the reachability of the hosts. -/
theorem candidates_identity (hsame : r'.identities = r.identities)
    (hreachable : r'.states.map HostRoutingState.reachable
      = r.states.map HostRoutingState.reachable) :
  r'.candidates.map HostRoutingState.identity = r.candidates.map HostRoutingState.identity
  := by
  have hpairs : r'.states.map (fun st => (st.identity, st.reachable))
      = r.states.map (fun st => (st.identity, st.reachable)) := by
    rw [← List.zip_map', ← List.zip_map']
    exact congrArg₂ List.zip hsame hreachable
  have hfilter (states : List HostRoutingState) :
      ((states.map fun st => (st.identity, st.reachable)).filter Prod.snd).map Prod.fst
        = (states.filter HostRoutingState.reachable).map HostRoutingState.identity := by
    rw [List.filter_map, List.map_map]
    rfl
  have hsome : (r'.states.filter HostRoutingState.reachable).map HostRoutingState.identity
      = (r.states.filter HostRoutingState.reachable).map HostRoutingState.identity := by
    rw [← hfilter, ← hfilter, hpairs]
  have hempty := congrArg List.isEmpty hsome
  rw [List.isEmpty_map, List.isEmpty_map] at hempty
  unfold candidates
  dsimp only
  rw [hempty]
  split
  · exact hsame
  · exact hsome

theorem KeepsReachability.tail {a : TableAction} {as : List TableAction}
    (h : r.KeepsReachability (a :: as)) :
  (r.act a).KeepsReachability as
    ∧ (r.act a).states.map HostRoutingState.reachable
      = r.states.map HostRoutingState.reachable
  := foldl_constant_tail (f := fun r : RoutingTable => r.states.map HostRoutingState.reachable) h

/-- The round-robin chooses among the candidates, for every model. -/
theorem pick_roundRobin (hstrategy : r.strategy = .roundRobin) (model : RequestedModel) :
  ∃ picked r', r.pick model = some (picked, r')
    ∧ picked = RoundRobin.slot HostRoutingState.weight r.candidates r.rrCounter
    ∧ r'.rrCounter = r.rrCounter + (if picked = none then 0 else 1)
  := by
  have hchoices : r.choices model = some (.roundRobin, r.candidates) := by
    unfold choices
    rw [hstrategy]
  rw [pick, hchoices, Option.map_some]
  dsimp only
  cases RoundRobin.slot HostRoutingState.weight r.candidates r.rrCounter with
  | none => exact ⟨none, r, rfl, rfl, rfl⟩
  | some host => exact ⟨some host, _, rfl, rfl, rfl⟩

/-- The round-robin returns a candidate, unless there is none. -/
theorem Configured.candidates_of_slot_eq_none (h : Configured hosts r) {c : ℕ}
    (hslot : RoundRobin.slot HostRoutingState.weight r.candidates c = none) :
  r.candidates = []
  := by
  by_contra hne
  obtain ⟨st, hst⟩ := List.exists_mem_of_ne_nil _ hne
  have hweight : 0 < st.weight := h.weight_pos (candidates_subset r hst)
  obtain ⟨host, hsome⟩ := RoundRobin.slot_isSome (c := c) (RoundRobin.total_pos hst hweight)
  cases hslot.symm.trans hsome

/-- What the round-robin returns are the slots of the candidates from the counter on. -/
theorem returns_eq_slots (h : Configured hosts r) (hstrategy : r.strategy = .roundRobin)
    {as : List TableAction} (hkeep : r.KeepsReachability as) :
  r.returns as = RoundRobin.slots HostIdentity.weight
    (r.candidates.map HostRoutingState.identity) r.rrCounter (as.countP TableAction.isPick)
  := by
  induction as generalizing r with
  | nil => rfl
  | cons a as ih =>
      obtain ⟨htail, hsame⟩ := hkeep.tail
      have hrest := ih (h.act a) ((strategy_act r a).trans hstrategy) htail
      rw [candidates_identity (identities_act r a) hsame] at hrest
      rw [returns, hrest, List.countP_cons]
      cases a with
      | pick model =>
          obtain ⟨picked, r', hpick, hslot, hcounter⟩ := pick_roundRobin hstrategy model
          have hact : r.act (.pick model) = r' := by
            rw [act, hpick]
          have hreturned : r.returned? (.pick model) = picked.map HostRoutingState.identity := by
            rw [returned?, hpick]
            rfl
          rw [hreturned, hact, hcounter]
          cases hnone : picked with
          | none =>
              have hempty := h.candidates_of_slot_eq_none (hslot.symm.trans hnone)
              rw [hempty, List.map_nil, RoundRobin.slots_nil, RoundRobin.slots_nil]
              rfl
          | some host =>
              have hmap := RoundRobin.map_slot (w := HostRoutingState.weight)
                (v := HostIdentity.weight) (f := HostRoutingState.identity) (fun _ => rfl)
                r.candidates r.rrCounter
              rw [← hslot, hnone] at hmap
              rw [show TableAction.isPick (.pick model) = true from rfl, if_pos rfl,
                if_neg (Option.some_ne_none host), RoundRobin.slots_succ, ← hmap]
      | poll | markUnhealthy | invalidate | countHandled => rfl

theorem Configured.nodup_candidates (h : Configured hosts r) :
  (r.candidates.map HostRoutingState.identity).Nodup
  := by
  have hnames : (r.states.map HostRoutingState.identity).Nodup := by
    apply List.Nodup.of_map HostIdentity.name
    rw [← identities, ← names_eq]
    exact h.nodup
  unfold candidates
  dsimp only
  split
  · exact hnames
  · exact hnames.sublist (List.filter_sublist.map _)

/-- Wherever the counter starts, with the round-robin every candidate is returned as often as
its weight by as many calls of `pick` as the total weight of the candidates, and no other host
is. -/
theorem returns_count {start : ℕ}
    (h : Reachable TableStep ((new hosts .roundRobin).withCounter start) r)
    {as : List TableAction} (hkeep : r.KeepsReachability as)
    (hpicks : as.countP TableAction.isPick
      = RoundRobin.total HostRoutingState.weight r.candidates) :
  (∀ st ∈ r.candidates, (r.returns as).count st.identity = st.weight)
    ∧ ∀ host ∈ r.returns as, ∃ st ∈ r.candidates, st.identity = host
  := by
  have hconfigured : Configured hosts r := by
    apply h.invariant (I := Configured hosts) ((Configured.new hosts .roundRobin).congr rfl)
    rintro t a _ ht rfl
    exact ht.act a
  have hstrategy : r.strategy = .roundRobin := by
    apply h.invariant (I := fun t => t.strategy = .roundRobin) rfl
    rintro t a _ ht rfl
    exact (strategy_act t a).trans ht
  have htotal : RoundRobin.total HostRoutingState.weight r.candidates
      = RoundRobin.total HostIdentity.weight (r.candidates.map HostRoutingState.identity) := by
    unfold RoundRobin.total
    rw [List.map_map]
    rfl
  have hcount (host : HostIdentity) : (r.returns as).count host
      = if host ∈ r.candidates.map HostRoutingState.identity then host.weight else 0 := by
    rw [returns_eq_slots hconfigured hstrategy hkeep, hpicks, htotal,
      RoundRobin.count_slots hconfigured.nodup_candidates]
  constructor
  · intro st hst
    rw [hcount, if_pos (List.mem_map_of_mem hst)]
    rfl
  · intro host hhost
    have hpos := List.count_pos_iff.mpr hhost
    rw [hcount] at hpos
    split at hpos
    · rename_i hmem
      exact List.mem_map.mp hmem
    · cases hpos

/-- Three calls from the counter five on, with a poll between them. -/
def threePicks : List TableAction :=
  [.pick .none, .poll "a" (some []), .pick .none, .pick (.named "m")]

theorem returns_count_threePicks :
  (((new weightedHosts .roundRobin).withCounter 5).returns threePicks).count
    ⟨"a", "http://a", 2⟩ = 2
  := by
  have hkeep : ((new weightedHosts .roundRobin).withCounter 5).KeepsReachability threePicks := by
    have hinits : ∀ bs ∈ threePicks.inits,
        (bs.foldl act ((new weightedHosts .roundRobin).withCounter 5)).states.map
            HostRoutingState.reachable
          = ((new weightedHosts .roundRobin).withCounter 5).states.map
            HostRoutingState.reachable := by
      decide
    intro bs hbs
    exact hinits bs ((List.mem_inits bs _).mpr hbs)
  exact (returns_count (Reachable.refl _) hkeep (by decide)).1 _ List.mem_cons_self

end RoutingTable

end OllamaQueueProxy
