import OllamaQueueProxy.Routing.Selection

/-!
# The shares of the hosts of a model

With the strategy `model_aware` the calls of `pick` for a model choose among the hosts that
have it, but the counter of the round-robin advances with the calls for other models as well.
What the calls for the model return depends on where the counter stands when they are made
(`returnsFor_eq`).  So a host gets its share exactly when the counter points, modulo the total
weight, as often into its interval of the cumulated weights as its weight says
(`sharesExactly_iff`); it is enough that the counter points to different places
(`sharesExactly_of_distinct`), as it does when no other model is asked for in between.
-/

open Transition

namespace OllamaQueueProxy

namespace TableAction

/-- The action is a call of `pick` for the model. -/
def isPickOf (m : String) : TableAction → Bool
  | .pick (.named m') => m' == m
  | _ => false

/-- The action advances the counter of the round-robin, when hosts are chosen by their
models. -/
def advances : TableAction → Bool
  | .pick .unhashable => false
  | .pick _ => true
  | _ => false

/-- Where the counter stands, from `c` on, when the calls of `pick` for the model are made. -/
def countersOf (m : String) : ℕ → List TableAction → List ℕ
  | _, [] => []
  | c, a :: as =>
      (if a.isPickOf m then [c] else []) ++ countersOf m (if a.advances then c + 1 else c) as

end TableAction

namespace RoutingTable

/-- The candidates that have the model. -/
def holders (r : RoutingTable) (m : String) : List HostIdentity :=
  (r.installed m).map HostRoutingState.identity

/-- What is known of the hosts, as far as it matters to the choice of one for the model. -/
def view (r : RoutingTable) (m : String) : List (HostIdentity × Bool × Bool) :=
  r.states.map fun st => (st.identity, st.reachable, st.installedModels.contains m)

/-- No action changes what is known of the hosts, as far as it matters to the model. -/
def KeepsHosts (r : RoutingTable) (m : String) (as : List TableAction) : Prop :=
  ∀ bs, bs <+: as → (bs.foldl act r).view m = r.view m

/-- The hosts that the calls of `pick` for the model return, in order. -/
def returnsFor (m : String) : RoutingTable → List TableAction → List HostIdentity
  | _, [] => []
  | r, a :: as =>
      (if a.isPickOf m then (r.returned? a).toList else []) ++ (r.act a).returnsFor m as

/-- Every host that has the model is returned as often as its weight says. -/
def SharesExactly (r : RoutingTable) (m : String) (as : List TableAction) : Prop :=
  ∀ host ∈ r.holders m, (r.returnsFor m as).count host = host.weight

/-- At the calls of `pick` for the model, the counter points as often into the interval of every
host that has the model as its weight says. -/
def PointsEvenly (r : RoutingTable) (m : String) (as : List TableAction) : Prop :=
  ∀ host ∈ r.holders m,
    (TableAction.countersOf m r.rrCounter as).countP (fun c =>
      RoundRobin.offset HostIdentity.weight (r.holders m) host
          ≤ c % RoundRobin.total HostIdentity.weight (r.holders m)
        ∧ c % RoundRobin.total HostIdentity.weight (r.holders m)
          < RoundRobin.offset HostIdentity.weight (r.holders m) host + host.weight)
      = host.weight

variable {hosts : List HostConfig} {r r' : RoutingTable} {m : String}

/-! ### The hosts of a model -/

/-- The hosts that have a model are determined by what is known of the hosts. -/
theorem holders_congr (h : r'.view m = r.view m) :
  r'.holders m = r.holders m
  := by
  have hholders (r : RoutingTable) : r.holders m
      = ((if ((r.view m).filter fun v => v.2.1).isEmpty then r.view m
          else (r.view m).filter fun v => v.2.1).filter fun v => v.2.2).map Prod.fst := by
    have hreachable : (r.view m).filter (fun v => v.2.1) = (r.states.filter
        HostRoutingState.reachable).map fun st =>
          (st.identity, st.reachable, st.installedModels.contains m) := by
      rw [view, List.filter_map]
      rfl
    rw [hreachable, List.isEmpty_map]
    unfold holders installed candidates view
    dsimp only
    split <;> rw [List.filter_map, List.map_map] <;> rfl
  rw [hholders, hholders, h]

theorem KeepsHosts.tail {a : TableAction} {as : List TableAction}
    (h : r.KeepsHosts m (a :: as)) :
  (r.act a).KeepsHosts m as ∧ (r.act a).view m = r.view m
  := foldl_constant_tail (f := fun r : RoutingTable => r.view m) h

/-- Calls of `pick` change nothing that is known of the hosts. -/
theorem keepsHosts_of_isPick {as : List TableAction} (has : ∀ a ∈ as, TableAction.isPick a = true) :
  r.KeepsHosts m as
  := by
  have hact (r : RoutingTable) {a : TableAction} (ha : TableAction.isPick a = true) :
      (r.act a).view m = r.view m := by
    cases a with
    | pick model =>
        simp only [act]
        split
        · rfl
        · rename_i picked r' hpick
          rw [view, view, (states_of_pick hpick).1]
    | poll | markUnhealthy | invalidate | countHandled => cases ha
  intro bs hbs
  have hall : ∀ a ∈ bs, TableAction.isPick a = true := fun a ha => has a (hbs.subset ha)
  clear hbs has
  induction bs generalizing r with
  | nil => rfl
  | cons b bs ih =>
      rw [List.foldl_cons, ih fun a ha => hall a (List.mem_cons_of_mem b ha)]
      exact hact r (hall b List.mem_cons_self)

theorem Configured.nodup_holders (h : Configured hosts r) (m : String) :
  (r.holders m).Nodup
  := h.nodup_candidates.sublist (List.filter_sublist.map _)

/-! ### The counter -/

/-- The choice for a value that can be looked up. -/
theorem exists_choices (hstrategy : r.strategy = .modelAware) {model : RequestedModel}
    (hmodel : (TableAction.pick model).advances = true) :
  ∃ reason cs, r.choices model = some (reason, cs)
  := by
  cases model with
  | unhashable => cases hmodel
  | none =>
      use .roundRobin, r.candidates
      simp only [choices, hstrategy]
  | named | unnamed =>
      simp only [choices, hstrategy, withModel, Option.map_some]
      split <;> exact ⟨_, _, rfl⟩

/-- When hosts are chosen by their models, `pick` advances the counter unless it raises
`TypeError`. -/
theorem rrCounter_act (h : Configured hosts r) (hne : r.states ≠ [])
    (hstrategy : r.strategy = .modelAware) (a : TableAction) :
  (r.act a).rrCounter = if a.advances then r.rrCounter + 1 else r.rrCounter
  := by
  cases a with
  | pick model =>
      by_cases hadvances : (TableAction.pick model).advances = true
      · obtain ⟨reason, cs, hchoices⟩ := exists_choices hstrategy hadvances
        obtain ⟨hsubset, hnonempty⟩ := choices_subset hchoices
        obtain ⟨st, hst⟩ := List.exists_mem_of_ne_nil _ (hnonempty (exists_candidate hne))
        have hweight := h.weight_pos (candidates_subset r (hsubset hst))
        obtain ⟨host, hslot⟩ := RoundRobin.slot_isSome (w := HostRoutingState.weight)
          (c := r.rrCounter) (RoundRobin.total_pos hst hweight)
        simp only [act, pick, hchoices, Option.map_some, hslot, if_pos hadvances]
      · cases model with
        | unhashable =>
            have hsome := exists_candidate hne
            simp only [act, pick, choices, hstrategy, withModel, List.isEmpty_iff, hsome, if_false,
              Option.map_none]
            rfl
        | none | named | unnamed => cases hadvances rfl
  | poll | markUnhealthy | invalidate | countHandled => rfl

/-- What `pick` returns for the model is the slot of the counter among the hosts that have
it. -/
theorem returned?_of_isPickOf (hstrategy : r.strategy = .modelAware) {a : TableAction}
    (ha : a.isPickOf m = true) (hsome : r.installed m ≠ []) :
  r.returned? a = RoundRobin.slot HostIdentity.weight (r.holders m) r.rrCounter
  := by
  cases a with
  | pick model =>
      cases model with
      | named m' =>
          obtain rfl := beq_iff_eq.mp ha
          have hchoices : r.choices (.named m') = some (.modelMatch, r.installed m') := by
            have hempty : (r.installed m').isEmpty = false := by
              rw [List.isEmpty_eq_false_iff]
              exact hsome
            simp only [choices, hstrategy, withModel, Option.map_some]
            rw [← installed, hempty]
            rfl
          have hmap := RoundRobin.map_slot (w := HostRoutingState.weight)
            (v := HostIdentity.weight) (f := HostRoutingState.identity) (fun _ => rfl)
            (r.installed m') r.rrCounter
          rw [holders, ← hmap, returned?, pick, hchoices, Option.map_some, Option.bind_some]
          dsimp only
          cases RoundRobin.slot HostRoutingState.weight (r.installed m') r.rrCounter <;> rfl
      | none | unnamed | unhashable => cases ha
  | poll | markUnhealthy | invalidate | countHandled => cases ha

/-- What the calls for a model return are the slots of the counters at which they are made. -/
theorem returnsFor_eq (h : Configured hosts r) (hstrategy : r.strategy = .modelAware)
    (hsome : r.holders m ≠ []) {as : List TableAction} (hkeep : r.KeepsHosts m as) :
  r.returnsFor m as = (TableAction.countersOf m r.rrCounter as).filterMap
    (RoundRobin.slot HostIdentity.weight (r.holders m))
  := by
  induction as generalizing r with
  | nil => rfl
  | cons a as ih =>
      obtain ⟨htail, hview⟩ := hkeep.tail
      have hinstalled : r.installed m ≠ [] := fun hnil => hsome (by rw [holders, hnil]; rfl)
      have hstates : r.states ≠ [] := by
        obtain ⟨st, hst⟩ := List.exists_mem_of_ne_nil _ hinstalled
        exact List.ne_nil_of_mem (mem_installed.mp hst).1.1
      have hsame := holders_congr hview
      have hrest := ih (h.act a) ((strategy_act r a).trans hstrategy) (hsame ▸ hsome) htail
      rw [hsame, rrCounter_act h hstates hstrategy] at hrest
      rw [returnsFor, hrest, TableAction.countersOf, List.filterMap_append]
      congr 1
      split
      · rename_i hpick
        rw [returned?_of_isPickOf hstrategy hpick hinstalled, List.filterMap_cons,
          List.filterMap_nil]
        cases RoundRobin.slot HostIdentity.weight (r.holders m) r.rrCounter <;> rfl
      · rfl

/-! ### The shares -/

theorem of_reachable (h : Reachable TableStep (new hosts .modelAware) r) :
  Configured hosts r ∧ r.strategy = .modelAware
  := by
  refine ⟨configured_of_reachable h, ?_⟩
  apply h.invariant (I := fun t => t.strategy = .modelAware) rfl
  rintro t a _ ht rfl
  exact (strategy_act t a).trans ht

/-- Every host that has the model is returned as often as its weight says, by the calls of
`pick` for the model among some actions, exactly when the counter points as often into its
interval at these calls. -/
theorem sharesExactly_iff (h : Reachable TableStep (new hosts .modelAware) r)
    {as : List TableAction} (hkeep : r.KeepsHosts m as) :
  SharesExactly r m as ↔ PointsEvenly r m as
  := by
  obtain ⟨hconfigured, hstrategy⟩ := of_reachable h
  apply forall₂_congr
  intro host hhost
  rw [returnsFor_eq hconfigured hstrategy (List.ne_nil_of_mem hhost) hkeep,
    RoundRobin.count_filterMap_slot (hconfigured.nodup_holders m) hhost]

/-- Two hosts of the same weight. -/
def equalHosts : List HostConfig :=
  [⟨"http://a", "a", 1, Nat.one_pos⟩, ⟨"http://b", "b", 1, Nat.one_pos⟩]

/-- Both hosts have two models. -/
def sharedTable : RoutingTable :=
  ((new equalHosts .modelAware).act (.poll "a" (some ["m", "n"]))).act (.poll "b" (some ["m", "n"]))

theorem reachable_sharedTable :
  Reachable TableStep (new equalHosts .modelAware) sharedTable
  := ((Reachable.refl _).step (a := .poll "a" (some ["m", "n"])) rfl).step
    (a := .poll "b" (some ["m", "n"])) rfl

/-- The calls for one model alternate with those for the other. -/
def alternating : List TableAction :=
  [.pick (.named "m"), .pick (.named "n"), .pick (.named "m")]

/-- All calls for one of the models return the first host. -/
theorem not_sharesExactly :
  Reachable TableStep (new equalHosts .modelAware) sharedTable
    ∧ sharedTable.KeepsHosts "m" alternating
    ∧ alternating.countP (TableAction.isPickOf "m")
      = RoundRobin.total HostIdentity.weight (sharedTable.holders "m")
    ∧ ¬ SharesExactly sharedTable "m" alternating
  := by
  refine ⟨reachable_sharedTable, keepsHosts_of_isPick (by decide), by decide, ?_⟩
  intro h
  have hcount := h ⟨"b", "http://b", 1⟩ (by decide)
  revert hcount
  decide

theorem sharesExactly_twoPicks :
  SharesExactly sharedTable "m" [.pick (.named "m"), .pick (.named "m")]
  := by
  apply (sharesExactly_iff reachable_sharedTable (keepsHosts_of_isPick (by decide))).mpr
  unfold PointsEvenly
  decide

/-- It is enough that the counter points to different places at the calls for the model. -/
theorem sharesExactly_of_distinct (h : Reachable TableStep (new hosts .modelAware) r)
    {as : List TableAction} (hkeep : r.KeepsHosts m as)
    (hpicks : (TableAction.countersOf m r.rrCounter as).length
      = RoundRobin.total HostIdentity.weight (r.holders m))
    (hdistinct : ((TableAction.countersOf m r.rrCounter as).map
      (· % RoundRobin.total HostIdentity.weight (r.holders m))).Nodup) :
  SharesExactly r m as
  := by
  obtain ⟨hconfigured, hstrategy⟩ := of_reachable h
  intro host hhost
  rw [returnsFor_eq hconfigured hstrategy (List.ne_nil_of_mem hhost) hkeep]
  have hnodup := hconfigured.nodup_holders m
  exact RoundRobin.count_filterMap_slot_of_nodup hnodup hhost hpicks hdistinct

end RoutingTable

end OllamaQueueProxy
