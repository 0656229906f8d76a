import OllamaQueueProxy.Proxy.Failover

/-!
# The end of the failover loop

The loop of `dispatch_request` goes on only after it has sent the request to a host that it
had not attempted, so the hosts that were not attempted bound how often it still goes on,
whatever other tasks do to the table (`rank`).  Every host is sent the request at most once,
and none after a host has answered (`terminates`).
-/

open Transition

namespace OllamaQueueProxy

/-- The loop acts itself. -/
def FailoverAction.isOwn : FailoverAction → Bool
  | .other _ => false
  | _ => true

/-- A host answers. -/
def FailoverAction.isAnswer : FailoverAction → Bool
  | .answer _ _ | .undecodable _ _ => true
  | _ => false

namespace Failover

/-- The host that the loop sends the request to by an action that leads to the state. -/
def sent? (s' : Failover) : FailoverAction → Option String
  | .start | .fail => match s'.status with
    | .awaiting name _ => some name
    | _ => none
  | _ => none

/-- The hosts that the loop sends the request to, in order. -/
def requests (model : RequestedModel) : Failover → List FailoverAction → List String
  | _, [] => []
  | s, a :: as => match step model s a with
    | none => []
    | some s' => (s'.sent? a).toList ++ requests model s' as

/-- The loop has been left. -/
def Ended (s : Failover) : Prop :=
  s.status ≠ .starting ∧ ∀ name url, s.status ≠ .awaiting name url

/-- The hosts that the loop may still attempt, and one if it goes on at all. -/
def rank (hosts : List HostConfig) (s : Failover) : ℕ :=
  match s.status with
  | .starting | .awaiting _ _ => hosts.length + 1 - s.attempted.length
  | _ => 0

/-- The hosts that were attempted are different configured ones. -/
structure Attempted (hosts : List HostConfig) (s : Failover) : Prop where
  configured : RoutingTable.Configured hosts s.table
  nodup : s.attempted.Nodup
  known : s.attempted ⊆ hosts.map HostConfig.name

variable {hosts : List HostConfig} {strategy : Strategy} {model : RequestedModel}
  {s s' : Failover}

theorem Attempted.length_le (h : Attempted hosts s) :
  s.attempted.length ≤ hosts.length
  := by
  have hsubperm := h.nodup.subperm h.known
  simpa using hsubperm.length_le

theorem Attempted.initial (hosts : List HostConfig) (strategy : Strategy) :
  Attempted hosts (initial hosts strategy)
  := ⟨RoutingTable.Configured.new hosts strategy, List.nodup_nil, List.nil_subset _⟩

/-- At its head the loop is left, or sends the request to a host that it had not attempted. -/
theorem next_cases (h : Attempted hosts s) (model : RequestedModel) :
  Attempted hosts (s.next model)
    ∧ ((s.next model).Ended ∧ (s.next model).attempted = s.attempted
      ∨ ∃ name url, (s.next model).status = .awaiting name url
        ∧ (s.next model).attempted = s.attempted ++ [name])
  := by
  have hended {t : Failover} (ht : t.status = .raised ∨ t.status = .exhausted) : t.Ended := by
    obtain ht | ht := ht <;> simp [Ended, ht]
  unfold next
  split
  · exact ⟨⟨h.configured, h.nodup, h.known⟩, .inl ⟨hended (.inl rfl), rfl⟩⟩
  · rename_i table hpick
    exact ⟨⟨h.configured.of_pick hpick, h.nodup, h.known⟩, .inl ⟨hended (.inr rfl), rfl⟩⟩
  · rename_i host table hpick
    split_ifs with hattempted
    · exact ⟨⟨h.configured.of_pick hpick, h.nodup, h.known⟩, .inl ⟨hended (.inr rfl), rfl⟩⟩
    · refine ⟨⟨h.configured.of_pick hpick, ?_, ?_⟩, .inr ⟨host.name, host.url, rfl, rfl⟩⟩
      · rw [← List.concat_eq_append]
        apply h.nodup.concat
        simpa using hattempted
      · apply List.append_subset.mpr ⟨h.known, ?_⟩
        apply List.cons_subset.mpr ⟨h.configured.names_subset ?_, List.nil_subset _⟩
        exact (RoutingTable.states_of_pick hpick).2 host rfl

theorem Attempted.act (h : Attempted hosts s) (a : TableAction) :
  Attempted hosts { s with table := s.table.act a }
  := ⟨h.configured.act a, h.nodup, h.known⟩

theorem Attempted.recordFailure (h : Attempted hosts s) (name url : String) :
  Attempted hosts (s.recordFailure name url)
  := ⟨h.configured.act (.markUnhealthy name), h.nodup, h.known⟩

theorem configured_recordAnswer {table : RoutingTable}
    (h : RoutingTable.Configured hosts table) (model : RequestedModel) (name : String)
    (statusCode : ℕ) (notFound : Bool) :
  RoutingTable.Configured hosts (recordAnswer model table name statusCode notFound)
  := by
  have hcounted := h.act (.countHandled name)
  cases model with
  | named m =>
      simp only [recordAnswer]
      split
      · exact hcounted.act (.invalidate name m)
      · exact hcounted
  | none | unnamed | unhashable => exact hcounted

/-- What an action can lead to. -/
structure Stepped (hosts : List HostConfig) (s : Failover) (a : FailoverAction)
    (s' : Failover) : Prop where
  attempted : Attempted hosts s'
  sent : s'.attempted = s.attempted ++ (s'.sent? a).toList
  other : a.isOwn = false → s'.status = s.status
  /-- The loop acts before it is left, and is left or sends the request to a host. -/
  own : a.isOwn = true → ¬ s.Ended
    ∧ (s'.Ended ∨ a.isAnswer = false ∧ s'.attempted.length = s.attempted.length + 1)

theorem sent?_of_ended (h : s.Ended) (a : FailoverAction) :
  s.sent? a = none
  := by
  cases a with
  | start | fail =>
      rw [sent?]
      split
      · rename_i hstatus
        exact absurd hstatus (h.2 _ _)
      · rfl
  | other | answer | undecodable | crash => rfl

/-- The loop is left by an action of its own. -/
theorem stepped_of_ended {t : Failover} (ht : t.attempted = s.attempted)
    (hattempted : Attempted hosts t) (hleft : t.Ended) (hended : ¬ s.Ended) {a : FailoverAction}
    (ha : a.isOwn = true) :
  Stepped hosts s a t
  := by
  constructor
  · exact hattempted
  · rw [sent?_of_ended hleft, ht]
    exact (List.append_nil _).symm
  · rw [ha]
    exact Bool.noConfusion
  · exact fun _ => ⟨hended, .inl hleft⟩

theorem stepped_next {t : Failover} (ht : t.attempted = s.attempted)
    (hattempted : Attempted hosts t) (hended : ¬ s.Ended) {a : FailoverAction}
    (ha : a = .start ∨ a = .fail) :
  Stepped hosts s a (t.next model)
  := by
  obtain ⟨hnext, ⟨hleft, hsame⟩ | ⟨name, url, hstatus, hnew⟩⟩ := next_cases hattempted model
  · apply stepped_of_ended (hsame.trans ht) hnext hleft hended
    obtain rfl | rfl := ha <;> rfl
  · constructor
    · exact hnext
    · rw [hnew, ht]
      obtain rfl | rfl := ha <;> rw [sent?, hstatus] <;> rfl
    · obtain rfl | rfl := ha <;> exact Bool.noConfusion
    · intro _
      refine ⟨hended, .inr ⟨?_, ?_⟩⟩
      · obtain rfl | rfl := ha <;> rfl
      · rw [hnew, ht, List.length_append, List.length_singleton]

theorem step_spec {a : FailoverAction} (h : Attempted hosts s) (hstep : Step model s a s') :
  Stepped hosts s a s'
  := by
  cases a with
  | other a =>
      obtain rfl := Option.some.inj hstep
      exact ⟨h.act a, (List.append_nil _).symm, fun _ => rfl, Bool.noConfusion⟩
  | start =>
      simp only [Step, ofStep, step] at hstep
      split at hstep
      · rename_i hstatus
        obtain rfl := Option.some.inj hstep
        exact stepped_next rfl h (fun hended => hended.1 hstatus) (.inl rfl)
      · cases hstep
  | fail =>
      simp only [Step, ofStep, step] at hstep
      split at hstep
      · rename_i name url hstatus
        obtain rfl := Option.some.inj hstep
        exact stepped_next (s := s) (t := s.recordFailure name url) rfl (h.recordFailure name url)
          (fun hended => hended.2 name url hstatus) (.inr rfl)
      · cases hstep
  | answer | undecodable =>
      simp only [Step, ofStep, step] at hstep
      split at hstep
      · rename_i name url hstatus
        obtain rfl := Option.some.inj hstep
        apply stepped_of_ended
        · rfl
        · exact ⟨configured_recordAnswer h.configured _ _ _ _, h.nodup, h.known⟩
        · simp [Ended]
        · exact fun hended => hended.2 name url hstatus
        · rfl
      · cases hstep
  | crash =>
      simp only [Step, ofStep, step] at hstep
      split at hstep
      · rename_i name url hstatus
        obtain rfl := Option.some.inj hstep
        apply stepped_of_ended
        · rfl
        · exact ⟨h.configured, h.nodup, h.known⟩
        · simp [Ended]
        · exact fun hended => hended.2 name url hstatus
        · rfl
      · cases hstep

theorem rank_of_ended (hosts : List HostConfig) (h : s.Ended) :
  rank hosts s = 0
  := by
  unfold rank
  split
  · rename_i hstatus
    exact absurd hstatus h.1
  · rename_i name url hstatus
    exact absurd hstatus (h.2 name url)
  · rfl

theorem rank_of_not_ended (hosts : List HostConfig) (h : ¬ s.Ended) :
  rank hosts s = hosts.length + 1 - s.attempted.length
  := by
  cases hstatus : s.status with
  | starting | awaiting => rw [rank, hstatus]
  | exhausted | answered | raised =>
      apply absurd _ h
      simp [Ended, hstatus]

/-- Every action of the loop decreases the rank, and no action of another task changes it. -/
theorem Stepped.rank_le {a : FailoverAction} (h : Stepped hosts s a s')
    (hattempted : Attempted hosts s) :
  (if a.isOwn = true then 1 else 0) + rank hosts s' ≤ rank hosts s
  := by
  have hlength := hattempted.length_le
  cases hown : a.isOwn with
  | false =>
      have hsent : s'.sent? a = none := by
        cases a with
        | other => rfl
        | start | fail | answer | undecodable | crash => cases hown
      have hsame : s'.attempted = s.attempted := by
        rw [h.sent, hsent]
        exact List.append_nil _
      rw [rank, rank, h.other hown, hsame]
      exact (zero_add _).le
  | true =>
      obtain ⟨hgoes, hleft | ⟨-, hnew⟩⟩ := h.own hown
      · rw [rank_of_ended hosts hleft, rank_of_not_ended hosts hgoes, if_pos rfl]
        omega
      · have hlength' := h.attempted.length_le
        rw [rank_of_not_ended hosts hgoes, if_pos rfl]
        by_cases hleft : s'.Ended
        · rw [rank_of_ended hosts hleft]
          omega
        · rw [rank_of_not_ended hosts hleft]
          omega

/-- The loop has been left exactly if it cannot act. -/
theorem ended_iff (model : RequestedModel) :
  s.Ended ↔ ∀ a, a.isOwn = true → step model s a = none
  := by
  constructor
  · rintro ⟨hstarting, hawaiting⟩ a hown
    cases a with
    | other => cases hown
    | start | fail | answer | undecodable | crash =>
        cases hstatus : s.status with
        | starting => exact absurd hstatus hstarting
        | awaiting name url => exact absurd hstatus (hawaiting name url)
        | exhausted | answered | raised => simp only [step, hstatus]
  · intro h
    constructor
    · intro hstatus
      have hstep := h .start rfl
      rw [step, hstatus] at hstep
      cases hstep
    · intro name url hstatus
      have hstep := h .fail rfl
      rw [step, hstatus] at hstep
      cases hstep

theorem requests_append {as : List FailoverAction} (h : Run (Step model) s as s')
    (bs : List FailoverAction) :
  requests model s (as ++ bs) = requests model s as ++ requests model s' bs
  := by
  induction h generalizing bs with
  | nil => rfl
  | @snoc t u as a _ hstep ih =>
      have hone (cs : List FailoverAction) :
          requests model t (a :: cs) = (u.sent? a).toList ++ requests model u cs := by
        rw [requests, show step model t a = some u from hstep]
      rw [List.append_assoc, List.singleton_append, ih, ih, hone, hone, requests,
        List.append_nil, List.append_assoc]

theorem attempted_of_run {as : List FailoverAction} (h : Run (Step model) s as s')
    (hattempted : Attempted hosts s) :
  Attempted hosts s' ∧ s'.attempted = s.attempted ++ requests model s as
  := by
  induction h with
  | nil => exact ⟨hattempted, (List.append_nil _).symm⟩
  | @snoc t u as a hrun hstep ih =>
      obtain ⟨ht, hsame⟩ := ih
      have hspec := step_spec ht hstep
      use hspec.attempted
      have hone : requests model t [a] = (u.sent? a).toList := by
        rw [requests, show step model t a = some u from hstep]
        exact List.append_nil _
      rw [hspec.sent, hsame, requests_append hrun, hone, List.append_assoc]

/-- Once the loop has been left, it does not act, and so sends nothing. -/
theorem Ended.run (h : s.Ended) (hattempted : Attempted hosts s) {as : List FailoverAction}
    (hrun : Run (Step model) s as s') :
  s'.Ended ∧ (∀ a ∈ as, a.isOwn = false) ∧ s'.attempted = s.attempted
  := by
  induction hrun with
  | nil => exact ⟨h, List.forall_mem_nil _, rfl⟩
  | @snoc t u as a hrun hstep ih =>
      obtain ⟨ht, has, hsame⟩ := ih
      have hspec := step_spec (attempted_of_run hrun hattempted).1 hstep
      have hown : a.isOwn = false := by
        by_contra hown
        exact (hspec.own (Bool.eq_true_of_not_eq_false hown)).1 ht
      have hended : u.Ended := by
        rw [Ended, hspec.other hown]
        exact ht
      refine ⟨hended, ?_, ?_⟩
      · intro b hb
        obtain hb | hb := List.mem_append.mp hb
        · exact has b hb
        · obtain rfl := List.mem_singleton.mp hb
          exact hown
      · rw [hspec.sent, sent?_of_ended hended, hsame]
        exact List.append_nil _

/-- What the loop does in a run for the configured hosts that ends in the state. -/
structure Terminates (hosts : List HostConfig) (model : RequestedModel) (s₀ : Failover)
    (as : List FailoverAction) (s : Failover) : Prop where
  /-- It acts once for each host and once more, at most. -/
  bounded : as.countP FailoverAction.isOwn ≤ hosts.length + 1
  /-- It can act until it is left. -/
  progress : s.Ended ∨ ∃ a, a.isOwn = true ∧ (step model s a).isSome = true
  once : (requests model s₀ as).Nodup
  configured : requests model s₀ as ⊆ hosts.map HostConfig.name
  length_le : (requests model s₀ as).length ≤ hosts.length
  /-- After a host has answered, it does nothing more. -/
  answered : ∀ before a after, as = before ++ a :: after → a.isAnswer = true →
    s.Ended ∧ (∀ b ∈ after, b.isOwn = false)
      ∧ requests model s₀ as = requests model s₀ before

/-- Whatever other tasks do to the table, the loop ends, and sends the request at most once to
every host and to none after a host has answered. -/
theorem terminates {as : List FailoverAction}
    (h : Run (Step model) (initial hosts strategy) as s) :
  Terminates hosts model (initial hosts strategy) as s
  := by
  have hinitial := Attempted.initial hosts strategy
  obtain ⟨hattempted, hsame⟩ := attempted_of_run h hinitial
  have hrequests : requests model (initial hosts strategy) as = s.attempted := hsame.symm
  constructor
  · have hcount : as.countP FailoverAction.isOwn + rank hosts s
        ≤ rank hosts (initial hosts strategy) :=
      h.countP_add_rank_le (I := Attempted hosts) hinitial
        (fun ht hstep => (step_spec ht hstep).attempted)
        (fun ht hstep => (step_spec ht hstep).rank_le ht)
    exact (Nat.le_add_right _ _).trans hcount
  · by_cases hended : s.Ended
    · exact .inl hended
    · rw [ended_iff model] at hended
      push Not at hended
      obtain ⟨a, hown, hstep⟩ := hended
      exact .inr ⟨a, hown, Option.isSome_iff_ne_none.mpr hstep⟩
  · rw [hrequests]
    exact hattempted.nodup
  · rw [hrequests]
    exact hattempted.known
  · rw [hrequests]
    exact hattempted.length_le
  · rintro before a after rfl hanswer
    obtain ⟨u, hu, hafter⟩ := (List.append_cons before a after ▸ h).append_inv
    obtain ⟨t, ht, hstep⟩ := hu.snoc_inv
    obtain ⟨htattempted, htsame⟩ := attempted_of_run ht hinitial
    have hspec := step_spec htattempted hstep
    have hown : a.isOwn = true := by
      cases a with
      | answer | undecodable => rfl
      | other | start | fail | crash => cases hanswer
    have hended : u.Ended := by
      obtain hended | ⟨hno, -⟩ := (hspec.own hown).2
      · exact hended
      · cases hno.symm.trans hanswer
    obtain ⟨hsended, hothers, hlast⟩ := hended.run hspec.attempted hafter
    refine ⟨hsended, hothers, ?_⟩
    rw [hrequests, hlast, hspec.sent, sent?_of_ended hended, htsame]
    exact List.append_nil _

/-- Both hosts fail the request, and become reachable between the attempts. -/
theorem terminates_twoHosts :
  (requests .none (initial twoHosts .roundRobin)
    [.start, .other (.pick .none), .fail, .other (.poll "a" (some [])), .fail]).length ≤ 2
  := by
  have hexec : (exec (step .none) (initial twoHosts .roundRobin)
      [.start, .other (.pick .none), .fail, .other (.poll "a" (some [])), .fail]).isSome
        = true := by
    decide +kernel
  obtain ⟨s, hrun⟩ := exists_run_of_exec hexec
  exact (terminates hrun).length_le

end Failover

end OllamaQueueProxy
