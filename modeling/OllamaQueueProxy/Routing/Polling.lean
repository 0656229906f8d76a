import OllamaQueueProxy.Routing.Selection

/-!
# Polls and invalidations

A poll of a host suspends between its start and its end, when it overwrites the models of the
host.  An invalidation that falls between the two is lost if the poll reports the model.  The
log says in which order polls start and end and models are invalidated; a model is pending on
a host since it was invalidated, until a poll that started after that reports it.

In all states of a run no host has a model that is pending on it exactly when no poll that
started before an invalidation ends with the model while it is pending
(`always_invalidated_iff`).
-/

open Transition

namespace OllamaQueueProxy

/-- What the log says of polls and invalidations. -/
inductive PollEvent where
  | started (id : ℕ) (host : String)
  /-- The poll ends with the models of the host, or fails. -/
  | ended (id : ℕ) (host : String) (answer : Option (List String))
  | invalidated (host model : String)
  deriving DecidableEq

/-- A routing table, with the polls that have not ended. -/
structure Polling where
  table : RoutingTable
  /-- The number of polls that were started. -/
  started : ℕ
  inFlight : List (ℕ × String)
  log : List PollEvent

inductive PollingAction where
  /-- The poller of a host starts a poll. -/
  | start (host : String)
  /-- The poll ends with the models of the host, or fails. -/
  | finish (id : ℕ) (answer : Option (List String))
  /-- The host answers a request that it has no such model. -/
  | notFound (host model : String)
  /-- The host answers a request otherwise. -/
  | handled (host : String)
  | markUnhealthy (host : String)
  | pick (model : RequestedModel)

namespace Polling

def initial (hosts : List HostConfig) (strategy : Strategy) : Polling where
  table := .new hosts strategy
  started := 0
  inFlight := []
  log := []

/-- The host that a poll asks. -/
def polled? (s : Polling) (id : ℕ) : Option String :=
  (s.inFlight.find? fun poll => poll.1 == id).map Prod.snd

/-- The state after an action; `none` if the action is not possible. -/
def step (s : Polling) : PollingAction → Option Polling
  | .start host =>
      -- the poller of a host awaits a poll before it starts the next one
      if host ∈ s.table.names ∧ host ∉ s.inFlight.map Prod.snd then some { s with
        started := s.started + 1
        inFlight := s.inFlight ++ [(s.started, host)]
        log := s.log ++ [.started s.started host] }
      else none
  | .finish id answer => (s.polled? id).map fun host => { s with
      table := s.table.act (.poll host answer)
      inFlight := s.inFlight.filter fun poll => poll.1 != id
      log := s.log ++ [.ended id host answer] }
  | .notFound host model =>
      if model = "" then none
      else some { s with
        table := (s.table.act (.countHandled host)).act (.invalidate host model)
        log := s.log ++ [.invalidated host model] }
  | .handled host => some { s with table := s.table.act (.countHandled host) }
  | .markUnhealthy host => some { s with table := s.table.act (.markUnhealthy host) }
  | .pick model => some { s with table := s.table.act (.pick model) }

abbrev Step : Polling → PollingAction → Polling → Prop := ofStep step

/-- No poll of the host that started among the events has reported the model. -/
def Unreported (events : List PollEvent) (host model : String) : Prop :=
  ∀ id models, .started id host ∈ events → .ended id host (some models) ∈ events →
    model ∉ models

/-- The model was invalidated on the host, before the events, and no poll that started since
then has reported it. -/
def Pending (s : Polling) (host model : String) (events : List PollEvent) : Prop :=
  (∃ before, s.log = before ++ .invalidated host model :: events)
    ∧ Unreported events host model

/-- The host is not listed as having the model. -/
def Lacks (r : RoutingTable) (host model : String) : Prop :=
  ∀ st ∈ r.states, st.name = host → model ∉ st.installedModels

/-- No host is listed as having a model that is pending on it, and none is picked for one,
unless no candidate is listed as having it. -/
def Invalidated (s : Polling) : Prop :=
  ∀ host model events, s.Pending host model events →
    Lacks s.table host model
      ∧ (s.table.strategy = .modelAware → model ≠ "" →
        (∃ st, s.table.IsCandidate st ∧ st.name ≠ host ∧ model ∈ st.installedModels) →
        ∀ picked r', s.table.pick (.named model) = some (some picked, r') → picked.name ≠ host)

/-- No poll that started before an invalidation ends with the model while it is pending. -/
def StepCurrent (s : Polling) : PollingAction → Prop
  | .finish id (some models) => ∀ host model events, s.polled? id = some host →
      s.Pending host model events → .started id host ∉ events → model ∉ models
  | _ => True

variable {s s' : Polling}

/-! ### Tables -/

section Tables

variable {r r' : RoutingTable} {host model : String}

theorem lacks_modify {f : HostRoutingState → HostRoutingState} {name : String}
    (hname : ∀ st, (f st).name = st.name)
    (hmodels : name = host → ∀ st, model ∉ st.installedModels → model ∉ (f st).installedModels)
    (h : Lacks r host model) :
  Lacks (r.modify name f) host model
  := by
  intro st hst hhost
  obtain ⟨st₀, hst₀, rfl⟩ := List.mem_map.mp hst
  split at hhost
  · rename_i hsame
    rw [if_pos hsame]
    rw [hname] at hhost
    exact hmodels (hsame.symm.trans hhost) st₀ (h st₀ hst₀ hhost)
  · rename_i hne
    rw [if_neg hne]
    exact h st₀ hst₀ hhost

/-- A host that lacks a model still does, unless a poll reports it. -/
theorem Lacks.act (h : Lacks r host model) {a : TableAction}
    (ha : ∀ models, a = .poll host (some models) → model ∉ models) :
  Lacks (r.act a) host model
  := by
  cases a with
  | poll name answer =>
      cases answer with
      | none => exact lacks_modify (fun _ => rfl) (fun _ _ => id) h
      | some models =>
          refine lacks_modify (fun _ => ?_) ?_ h
          · rfl
          · rintro rfl st _
            exact ha models rfl
  | pick requested =>
      simp only [RoutingTable.act]
      split
      · exact h
      · rename_i picked r' hpick
        rw [Lacks, (RoutingTable.states_of_pick hpick).1]
        exact h
  | markUnhealthy | countHandled => exact lacks_modify (fun _ => rfl) (fun _ _ => id) h
  | invalidate name m =>
      refine lacks_modify (fun _ => ?_) ?_ h
      · rfl
      · intro _ st hst hmem
        exact hst (List.mem_of_mem_filter hmem)

/-- The models of a poll are those of the host after it. -/
theorem not_mem_of_lacks {models : List String} (hhost : host ∈ r.names)
    (h : Lacks (r.act (.poll host (some models))) host model) :
  model ∉ models
  := by
  obtain ⟨st, hst, rfl⟩ := List.mem_map.mp hhost
  apply h { st with
    installedModels := models
    reachable := true } _ rfl
  apply List.mem_map.mpr
  use st, hst
  rw [if_pos rfl]

theorem lacks_invalidate (r : RoutingTable) (host model : String) :
  Lacks (r.act (.invalidate host model)) host model
  := by
  intro st hst hhost
  obtain ⟨st₀, -, rfl⟩ := List.mem_map.mp hst
  split
  · intro hmem
    simpa using List.of_mem_filter hmem
  · rename_i hne
    rw [if_neg hne] at hhost
    exact absurd hhost hne

/-- A host that lacks the model is not picked for it while another candidate has it. -/
theorem Lacks.pick (h : Lacks r host model) (hstrategy : r.strategy = .modelAware)
    (hmodel : model ≠ "")
    (hother : ∃ st, r.IsCandidate st ∧ st.name ≠ host ∧ model ∈ st.installedModels)
    {picked : HostRoutingState} (hpick : r.pick (.named model) = some (some picked, r')) :
  picked.name ≠ host
  := by
  obtain ⟨st, hst, -, hinstalled⟩ := hother
  obtain ⟨reason, cs, hchoices, hchosen⟩ := RoutingTable.choices_named hstrategy hmodel
  obtain ⟨reason', cs', hsame, ⟨-, hno, -⟩ | ⟨host', hslot, heq, -⟩⟩ :=
    RoutingTable.pick_cases hpick
  · cases hno
  · obtain ⟨rfl, rfl⟩ : reason = reason' ∧ cs = cs' := by
      simpa using hchoices.symm.trans hsame
    obtain rfl := Option.some.inj heq
    have hmem : picked ∈ cs := (RoundRobin.slot_eq_some_iff.mp hslot).mem
    obtain ⟨m, hm, hhas⟩ :=
      hchosen.installed ⟨hstrategy, model, rfl, hmodel, st, hst, hinstalled⟩ picked hmem
    obtain rfl := Option.some.inj hm
    have hstate : picked ∈ r.states :=
      RoutingTable.candidates_subset r ((RoutingTable.choices_subset hchoices).1 hmem)
    intro hhost
    exact h picked hstate hhost hhas

end Tables

/-! ### Runs -/

variable {host model : String}

theorem invalidated_iff :
  s.Invalidated ↔ ∀ host model events, s.Pending host model events → Lacks s.table host model
  := by
  constructor
  · intro h host model events hpending
    exact (h host model events hpending).1
  · intro h host model events hpending
    have hlacks := h host model events hpending
    use hlacks
    intro hstrategy hmodel hother picked r' hpick
    exact hlacks.pick hstrategy hmodel hother hpick

/-- What is pending after an event was pending before it, or is invalidated by it. -/
theorem pending_snoc {e : PollEvent} {events : List PollEvent}
    (hlog : s'.log = s.log ++ [e]) (h : s'.Pending host model events) :
  (events = [] ∧ e = .invalidated host model)
    ∨ ∃ earlier, events = earlier ++ [e] ∧ s.Pending host model earlier
  := by
  obtain ⟨⟨before, hsplit⟩, hunreported⟩ := h
  rw [hlog] at hsplit
  obtain rfl | ⟨earlier, e', rfl⟩ := List.eq_nil_or_concat' events
  · obtain ⟨-, he⟩ := List.append_inj' hsplit rfl
    exact .inl ⟨rfl, by simpa using he⟩
  · rw [← List.cons_append, ← List.append_assoc] at hsplit
    obtain ⟨hlog, he⟩ := List.append_inj' hsplit rfl
    obtain rfl : e = e' := by simpa using he
    refine .inr ⟨earlier, rfl, ⟨before, hlog⟩, ?_⟩
    intro id models hstarted hended
    exact hunreported id models (List.mem_append_left _ hstarted)
      (List.mem_append_left _ hended)

/-- The hosts that are polled are in the table. -/
def Polled (s : Polling) : Prop := ∀ poll ∈ s.inFlight, poll.2 ∈ s.table.names

theorem names_act (r : RoutingTable) (a : TableAction) :
  (r.act a).names = r.names
  := by
  rw [RoutingTable.names_eq, RoutingTable.names_eq, RoutingTable.identities_act]

theorem Polled.step {a : PollingAction} (h : Polled s) (hstep : Step s a s') :
  Polled s'
  := by
  cases a with
  | start name =>
      simp only [Step, ofStep, Polling.step] at hstep
      split at hstep
      · rename_i hguard
        obtain rfl := Option.some.inj hstep
        intro poll hpoll
        obtain hpoll | hpoll := List.mem_append.mp hpoll
        · exact h poll hpoll
        · obtain rfl := List.mem_singleton.mp hpoll
          exact hguard.1
      · cases hstep
  | finish id answer =>
      obtain ⟨name, -, rfl⟩ := Option.map_eq_some_iff.mp hstep
      intro poll hpoll
      rw [names_act]
      exact h poll (List.mem_of_mem_filter hpoll)
  | notFound name m =>
      simp only [Step, ofStep, Polling.step] at hstep
      split at hstep
      · cases hstep
      · obtain rfl := Option.some.inj hstep
        intro poll hpoll
        rw [names_act, names_act]
        exact h poll hpoll
  | handled | markUnhealthy | pick =>
      obtain rfl := Option.some.inj hstep
      intro poll hpoll
      rw [names_act]
      exact h poll hpoll

theorem Polled.mem_names (h : Polled s) {id : ℕ} (hpolled : s.polled? id = some host) :
  host ∈ s.table.names
  := by
  obtain ⟨poll, hpoll, rfl⟩ := Option.map_eq_some_iff.mp hpolled
  exact h poll (List.mem_of_find?_eq_some hpoll)

/-- What is pending stays so while the log does not change. -/
theorem Invalidated.act (h : s.Invalidated) {a : TableAction}
    (ha : ∀ host models, a ≠ .poll host (some models)) :
  Invalidated { s with table := s.table.act a }
  := by
  rw [invalidated_iff] at h ⊢
  intro host model events hpending
  apply (h host model events hpending).act
  intro models hsame
  exact absurd hsame (ha host models)

/-- When a poll ends, its host has no pending model exactly if it does not report one that
was pending before it started. -/
theorem finish_iff (h : s.Invalidated) (hpolls : Polled s) {id : ℕ}
    {answer : Option (List String)} (hstep : Step s (.finish id answer) s') :
  s'.Invalidated ↔ s.StepCurrent (.finish id answer)
  := by
  obtain ⟨name, hpolled, rfl⟩ := Option.map_eq_some_iff.mp hstep
  rw [invalidated_iff] at h ⊢
  constructor
  · intro hafter
    cases answer with
    | none => trivial
    | some models =>
        intro host model events hhost hpending hstarted
        obtain rfl : name = host := Option.some.inj (hpolled.symm.trans hhost)
        apply not_mem_of_lacks (hpolls.mem_names hpolled)
        apply hafter name model (events ++ [.ended id name (some models)])
        obtain ⟨⟨before, hlog⟩, hunreported⟩ := hpending
        constructor
        · use before
          rw [hlog, List.append_assoc]
          rfl
        · intro id' models' hstarted' hended
          have hold : .started id' name ∈ events := by
            obtain hold | hnew := List.mem_append.mp hstarted'
            · exact hold
            · cases List.mem_singleton.mp hnew
          obtain hearlier | hlast := List.mem_append.mp hended
          · exact hunreported id' models' hold hearlier
          · cases List.mem_singleton.mp hlast
            exact absurd hold hstarted
  · intro hcurrent host model events hpending
    obtain ⟨-, hno⟩ | ⟨earlier, rfl, hearlier⟩ := pending_snoc (s := s) rfl hpending
    · cases hno
    · apply (h host model earlier hearlier).act
      rintro models hsame
      obtain ⟨rfl, rfl⟩ : name = host ∧ answer = some models := by simpa using hsame
      by_cases hstarted : .started id name ∈ earlier
      · exact hpending.2 id models (List.mem_append_left _ hstarted)
          (List.mem_append_right _ (List.mem_singleton_self _))
      · exact hcurrent name model earlier hpolled hearlier hstarted

theorem Invalidated.step_iff {a : PollingAction} (h : s.Invalidated) (hpolls : Polled s)
    (hstep : Step s a s') :
  s'.Invalidated ↔ s.StepCurrent a
  := by
  cases a with
  | finish id answer => exact finish_iff h hpolls hstep
  | start name =>
      simp only [Step, ofStep, step] at hstep
      split at hstep
      · obtain rfl := Option.some.inj hstep
        apply iff_of_true _ trivial
        rw [invalidated_iff] at h ⊢
        intro host model events hpending
        obtain ⟨-, hno⟩ | ⟨earlier, -, hearlier⟩ := pending_snoc (s := s) rfl hpending
        · cases hno
        · exact h host model earlier hearlier
      · cases hstep
  | notFound name m =>
      simp only [Step, ofStep, step] at hstep
      split at hstep
      · cases hstep
      · obtain rfl := Option.some.inj hstep
        apply iff_of_true _ trivial
        rw [invalidated_iff] at h ⊢
        intro host model events hpending
        obtain ⟨-, hsame⟩ | ⟨earlier, -, hearlier⟩ := pending_snoc (s := s) rfl hpending
        · cases hsame
          exact lacks_invalidate _ name m
        · apply ((h host model earlier hearlier).act _).act
          · intro models hno
            cases hno
          · intro models hno
            cases hno
  | handled | markUnhealthy | pick =>
      obtain rfl := Option.some.inj hstep
      apply iff_of_true (h.act _) trivial
      intro host models hno
      cases hno

/-- In all states of a run no host has a model that is pending on it exactly when no poll
that started before an invalidation ends with the model while it is pending. -/
theorem always_invalidated_iff (hosts : List HostConfig) (strategy : Strategy)
    (as : List PollingAction) :
  Always Step (initial hosts strategy) as Invalidated
    ↔ AllSteps Step (initial hosts strategy) as StepCurrent
  := by
  apply always_iff_allSteps (I := Polled)
  · intro poll hpoll
    cases hpoll
  · intro host model events hpending
    obtain ⟨⟨before, hlog⟩, -⟩ := hpending
    simp [initial] at hlog
  · intro t a u hpolls _ hstep
    exact hpolls.step hstep
  · intro t a u hpolls h hstep
    exact h.step_iff hpolls hstep

/-- While a poll of the first host is in flight, the model that it will report is
invalidated. -/
def lostInvalidation : List PollingAction :=
  [.start "a", .notFound "a" "m", .finish 0 (some ["m"])]

/-- The poll undoes the invalidation. -/
theorem not_always_invalidated :
  ¬ Always Step (initial RoutingTable.weightedHosts .modelAware) lostInvalidation Invalidated
  := by
  apply not_always_of_exec
    (b := fun s => s.log == [.started 0 "a", .invalidated "a" "m", .ended 0 "a" (some ["m"])]
      && s.table.states.any fun st => st.name == "a" && st.installedModels.contains "m")
  · decide +kernel
  · intro s hbad h
    obtain ⟨hlog, hhas⟩ := Bool.and_eq_true_iff.mp hbad
    obtain ⟨st, hst, hmodel⟩ := List.any_eq_true.mp hhas
    obtain ⟨hname, hinstalled⟩ := Bool.and_eq_true_iff.mp hmodel
    have hpending : s.Pending "a" "m" [.ended 0 "a" (some ["m"])] := by
      refine ⟨⟨[.started 0 "a"], by simpa using hlog⟩, ?_⟩
      intro id models hstarted
      simp at hstarted
    apply (h "a" "m" _ hpending).1 st hst (by simpa using hname)
    simpa using hinstalled

end Polling

end OllamaQueueProxy
