import Polay.Execution.Calls

/-!
# The settlement of matches

An attestor submits the result of a match, and later the rewards of the match
are paid. The history of a run lists both. What should be final is not: a result
can be submitted again, which opens a settled or quarantined match anew, and the
payment only checks that the signer is some attestor of the game, since the
store does not say who submitted a result. Runs that do neither keep the history
final.
-/

namespace Polay.Execution

open Lib Lib.Machine Lib.Trace Polay.Types State

/-! ## Histories -/

section Histories

/-- What is done to a match. -/
inductive MatchEntry where
  | submitted (id : Hash) (attestor : Address) (quarantined : Bool)
  | paid (id : Hash) (signer : Address)
deriving DecidableEq

/-- The entry is a payment for the match. -/
def MatchEntry.paysFor (id : Hash) : MatchEntry → Bool
  | .paid i _ => i = id
  | .submitted _ _ _ => false

/-- The attestor of the match after an entry. -/
def MatchEntry.submitter (id : Hash) (before : Option Address) : MatchEntry → Option Address
  | .submitted i a _ => if i = id then some a else before
  | .paid _ _ => before

/-- The attestor who submitted the latest result of the match. -/
def submitterOf (history : List MatchEntry) (id : Hash) : Option Address :=
  history.foldl (MatchEntry.submitter id) none

/-- Settlement is final: every match is paid for at most once, a result in quarantine is
never paid for, and payments are signed by the attestor who submitted the result. -/
structure Final (history : List MatchEntry) : Prop where
  once : ∀ id, history.countP (MatchEntry.paysFor id) ≤ 1
  quarantine : ∀ before after id a b, history = before ++ .submitted id a true :: after →
    .paid id b ∉ after
  signer : ∀ before after id a, history = before ++ .paid id a :: after →
    submitterOf before id = some a

theorem submitterOf_append (h : List MatchEntry) (e : MatchEntry) (id : Hash) :
    submitterOf (h ++ [e]) id = e.submitter id (submitterOf h id) := by
  unfold submitterOf
  rw [List.foldl_append]
  rfl

theorem Final.nil : Final [] where
  once _ := Nat.zero_le _
  quarantine := by simp
  signer := by simp

/-- Splitting a history that one entry was added to. -/
theorem split_snoc {h before after : List MatchEntry} {e x : MatchEntry}
    (hEq : h ++ [e] = before ++ x :: after) :
    (after = [] ∧ h = before ∧ e = x) ∨
      ∃ rest, after = rest ++ [e] ∧ h = before ++ x :: rest := by
  rcases List.eq_nil_or_concat' after with hNil | ⟨rest, y, hAfter⟩
  · subst hNil
    obtain ⟨hBefore, hLast⟩ := List.append_inj' hEq rfl
    exact .inl ⟨rfl, hBefore, List.singleton_inj.mp hLast⟩
  · subst hAfter
    rw [← List.cons_append, ← List.append_assoc] at hEq
    obtain ⟨hBefore, hLast⟩ := List.append_inj' hEq rfl
    rw [List.singleton_inj.mp hLast]
    exact .inr ⟨rest, rfl, hBefore⟩

theorem Final.submitted {h : List MatchEntry} (hFinal : Final h) (id : Hash) (a : Address)
    (q : Bool) : Final (h ++ [.submitted id a q]) where
  once i := by
    rw [List.countP_append]
    exact hFinal.once i
  quarantine before after i b c hEq := by
    rcases split_snoc hEq with ⟨rfl, _, _⟩ | ⟨rest, rfl, hRest⟩
    · simp
    · simpa using hFinal.quarantine before rest i b c hRest
  signer before after i b hEq := by
    rcases split_snoc hEq with ⟨_, _, hLast⟩ | ⟨rest, _, hRest⟩
    · cases hLast
    · exact hFinal.signer before rest i b hRest

theorem Final.paid {h : List MatchEntry} (hFinal : Final h) {id : Hash} {a : Address}
    (hOpen : h.countP (MatchEntry.paysFor id) = 0)
    (hFree : ∀ b, .submitted id b true ∉ h) (hSigner : submitterOf h id = some a) :
    Final (h ++ [.paid id a]) where
  once i := by
    have hOnce := hFinal.once i
    rw [List.countP_append, List.countP_singleton]
    by_cases hEq : id = i
    · subst hEq
      rw [hOpen]
      split <;> omega
    · rw [if_neg (by simpa [MatchEntry.paysFor] using hEq)]
      exact hOnce
  quarantine before after i b c hEq := by
    rcases split_snoc hEq with ⟨rfl, _, _⟩ | ⟨rest, rfl, hRest⟩
    · simp
    · have hOld := hFinal.quarantine before rest i b c hRest
      rw [List.mem_append, not_or]
      refine ⟨hOld, fun hNew => ?_⟩
      have hSame := List.mem_singleton.mp hNew
      simp only [MatchEntry.paid.injEq] at hSame
      obtain ⟨rfl, _⟩ := hSame
      exact hFree b (by rw [hRest]; simp)
  signer before after i b hEq := by
    rcases split_snoc hEq with ⟨_, rfl, hLast⟩ | ⟨rest, _, hRest⟩
    · simp only [MatchEntry.paid.injEq] at hLast
      obtain ⟨rfl, rfl⟩ := hLast
      exact hSigner
    · exact hFinal.signer before rest i b hRest

end Histories

/-! ## Handlers -/

section Handlers

variable {s : StateStore}

/-- The rewards are paid: the match is not settled, the attestor is the game's and the
reward pool covers the counted total. -/
def PaysRewards (s : StateStore) (signer : Address) (id : Hash)
    (rewards : List (Address × UInt64)) : Prop :=
  ∃ settlement attestor result, settlementOf s id = some settlement ∧
    attestorOf s signer = some attestor ∧ matchResultOf s id = some result ∧
    settlement.settled = false ∧ settlement.quarantined = false ∧
    attestor.gameId = result.gameId ∧ ¬ result.rewardPool < Attestation.totalRewards rewards

/-- The settlement record of a new result. -/
def openSettlement (config : ChainConfig) (r : MatchResult) (t : UInt64) : MatchSettlement where
  matchId := r.matchId
  settled := false
  rewardsDistributed := []
  quarantined := Attestation.isQuarantined config.attestationQuarantineThreshold r.antiCheatScore
  settledAt := t

theorem submitMatchResult_effect (config : ChainConfig) (signer : Address) (r : MatchResult)
    (t : UInt64) :
    (Attestation.executeSubmitMatchResult config signer r t).Wp
      (Prog.OnOk (fun u => (∃ x, attestorOf s signer = some x ∧ x.gameId = r.gameId) ∧
        u = withSettlement (withMatchResult s r) (openSettlement config r t)) s) s := by
  simp only [Attestation.executeSubmitMatchResult, Prog.bind_eq, wp_getAttestor_bind,
    Prog.wp_require_bind, Prog.wp_ensure_bind, wp_setMatchResult_bind, wp_setMatchSettlement_bind,
    Prog.pure_eq, Prog.wp_pure]
  exact ⟨fun _ => rfl, fun x hx => ⟨fun _ => rfl, fun _ => ⟨fun _ => rfl, fun hGame =>
    ⟨fun _ => rfl, fun _ => ⟨⟨x, hx, hGame⟩, rfl⟩⟩⟩⟩⟩

/-- The store after rewards are paid. -/
def rewarded (t : UInt64) (s : StateStore) (rewards : List (Address × UInt64)) : StateStore :=
  rewards.foldl (fun s r => Executor.creditedStore s r.1 t r.2) s

/-- Paying rewards writes accounts only. -/
theorem sameOn_rewarded {F : List Family} (hF : .account ∉ F) (t : UInt64)
    (rewards : List (Address × UInt64)) (s : StateStore) : SameOn F s (rewarded t s rewards) := by
  induction rewards generalizing s with
  | nil => exact .refl F s
  | cons r rest ih => exact (sameOn_insert hF s _).trans (ih _)

theorem distributeReward_wp (signer : Address) (id : Hash) (rewards : List (Address × UInt64))
    (t : UInt64) :
    (Attestation.executeDistributeReward signer id rewards t).Wp
      (Prog.OnOk (fun u => PaysRewards s signer id rewards ∧
        ∃ x, settlementOf s id = some x ∧ x.quarantined = false ∧
          u = withSettlement (rewarded t s rewards)
            { x with settled := true, rewardsDistributed := rewards, settledAt := t }) s) s := by
  simp only [Attestation.executeDistributeReward, Prog.bind_eq, wp_getMatchSettlement_bind,
    wp_getAttestor_bind, wp_getMatchResult_bind, Prog.wp_require_bind, Prog.wp_ensure_bind]
  refine ⟨fun _ => rfl, fun x hx => ⟨fun _ => rfl, fun hSettled => ⟨fun _ => rfl,
    fun hQuarantined => ⟨fun _ => rfl, fun attestor hAttestor => ⟨fun _ => rfl,
      fun result hResult => ⟨fun _ => rfl, fun hGame => ⟨fun _ => rfl, fun hPool => ?_⟩⟩⟩⟩⟩⟩⟩
  have hFree : x.quarantined = false := by simpa using hQuarantined
  rw [Prog.wp_each_bind (g := fun s r => Executor.creditedStore s r.1 t r.2) fun _ _ => rfl,
    wp_setMatchSettlement_bind]
  exact ⟨⟨x, attestor, result, hx, hAttestor, hResult, by simpa using hSettled, hFree, hGame,
    hPool⟩, x, hx, hFree, rfl⟩

theorem distributeReward_effect (signer : Address) (id : Hash) (rewards : List (Address × UInt64))
    (t : UInt64) :
    (Attestation.executeDistributeReward signer id rewards t).Wp
      (Prog.OnOk (fun u => PaysRewards s signer id rewards ∧
        (∃ y : MatchSettlement, y.settled = true ∧ y.quarantined = false ∧
          ∀ i, settlementOf u i = if id = i then some y else settlementOf s i) ∧
        ∀ i, matchResultOf u i = matchResultOf s i) s) s := by
  have hKeeps : SameOn [.matchSettlement, .matchResult] s (rewarded t s rewards) :=
    sameOn_rewarded (by simp) t rewards s
  refine (distributeReward_wp signer id rewards t).mono fun o u h => ?_
  cases o with
  | ok r =>
      obtain ⟨hPays, x, hx, hFree, rfl⟩ := h
      refine ⟨hPays, ⟨{ x with settled := true, rewardsDistributed := rewards, settledAt := t },
        rfl, hFree, fun i => ?_⟩, fun i => ?_⟩
      · rw [settlementOf_withSettlement, ← id_of_settlementOf hx]
        show (if x.matchId = i then _ else _) = _
        rw [settlementOf, hKeeps (.matchSettlement i) (by simp [familyOf]), ← settlementOf]
      · rw [matchResultOf_withSettlement, matchResultOf,
          hKeeps (.matchResult i) (by simp [familyOf]), ← matchResultOf]
  | err e => exact h
  | panic => exact h

end Handlers

/-! ## Attestors -/

section Attestors

variable {s : StateStore}

/-- The attestors of `s` are still there, with their games. -/
def GamesKept (s : StateStore) (k : Key) (r : Option k.Value) : Prop :=
  match k, r with
  | .attestor a, r => ∀ x, attestorOf s a = some x →
      r.map (fun v => Attestor.gameId v.val) = some x.gameId
  | _, _ => True

theorem free_gamesKept {F : List Family} (hF : Family.attestor ∉ F) : Free F (GamesKept s) := by
  intro k r hk
  cases k
  case attestor a => exact absurd hk hF
  all_goals trivial

theorem holds_gamesKept (s : StateStore) : Store.Holds (GamesKept s) s := by
  intro k
  cases k
  case attestor a =>
    intro x hx
    obtain ⟨r, hr, rfl⟩ := Option.map_eq_some_iff.mp hx
    rw [hr]
    rfl
  all_goals trivial

theorem registerAttestor_games (signer : Address) (gameId endpoint metadata : String)
    (t : UInt64) :
    (Attestation.executeRegisterAttestor signer gameId endpoint metadata t).Safe (GamesKept s)
      True True false := by
  intro r hr
  cases r with
  | some x => exact fun _ => trivial
  | none => exact ⟨fun x hx => absurd (hr x hx) (by simp), trivial⟩

/-- Suspending an attestor leaves its game. -/
theorem suspendAttestor_games (a : Address) :
    (Governance.suspendAttestor a).Safe (GamesKept s) True True false := by
  intro r hr
  cases r with
  | none => trivial
  | some x =>
      refine ⟨fun y hy => ?_, trivial⟩
      have hAddress : Attestor.address x.val = a := x.property
      exact hr y (hAddress ▸ hy)

theorem executeProposal_games (config : ChainConfig) (id : Hash) (height : UInt64) :
    (Governance.executeExecuteProposal config id height).Safe (GamesKept s) True True false := by
  have hAccount : Free [.account] (GamesKept s) := free_gamesKept (by simp)
  have hAction : ∀ action : Governance.ProposalAction,
      (Governance.executeProposalAction action).Safe (GamesKept s) True True false := by
    intro action
    cases action with
    | suspendAttestor a => exact suspendAttestor_games a
    | _ =>
      simp [Governance.executeProposalAction, free_creditOrCreate_self hAccount, getValidator,
        setValidator, storeGet, storePut, GamesKept]
  simp [Governance.executeExecuteProposal, Governance.calculateTotalStaked,
    Governance.applyPassed, Governance.applyRejected, Prog.Safe.bind, hAction,
    free_creditOrCreate hAccount, getProposal, setProposal, prefixScan, storeGet, storePut,
    GamesKept]

theorem gamesKept_dispatchAction (sha256 : List UInt8 → Hash) (ex : Executor)
    (action : TransactionAction) (signer : Address) (t h : UInt64) {u : StateStore}
    (hu : Store.Holds (GamesKept s) u) :
    Store.Holds (GamesKept s) ((ex.dispatchAction sha256 action signer t h).run u).2 := by
  have hKeeps := run_keeps (dispatchAction_keeps sha256 ex action signer t h (s := u))
  have hSafe : (ex.dispatchAction sha256 action signer t h).Safe (GamesKept s) True True false →
      Store.Holds (GamesKept s) ((ex.dispatchAction sha256 action signer t h).run u).2 :=
    fun hSafe => (hSafe.sound hu).holds
  cases action
  case registerAttestor gameId endpoint metadata =>
    exact hSafe ((registerAttestor_games _ _ _ _ _).bind fun _ => trivial)
  case executeProposal id => exact hSafe ((executeProposal_games _ _ _).bind fun _ => trivial)
  all_goals exact holds_of_keeps (free_gamesKept (by simp [writtenBy])) hu hKeeps

/-- Attestors stay registered, with their games. -/
theorem game_of_call {sha256 : List UInt8 → Hash} {ex : Executor} {c : Call} {a : Address}
    {x : Attestor} (h : attestorOf s a = some x) :
    ∃ y, attestorOf (c.next sha256 ex s) a = some y ∧ y.gameId = x.gameId := by
  have hHolds := (ex.executeTransaction_run sha256 c.tx c.height c.proposer s).holds
    (free_gamesKept (by simp [feeFamilies])) (holds_gamesKept s)
    fun s₁ _ hs₁ => gamesKept_dispatchAction sha256 ex _ _ _ _ hs₁
  obtain ⟨r, hr, hGame⟩ := Option.map_eq_some_iff.mp (hHolds (.attestor a) x h)
  exact ⟨r.val, by rw [attestorOf, Call.next, hr]; rfl, hGame⟩

end Attestors

/-! ## Calls -/

section Calls

variable {sha256 : List UInt8 → Hash} {ex : Executor} {s : StateStore} {c : Call}
variable {t : StateStore} {F : List Family}

/-- The entry of an action that succeeds. -/
def entryOf (config : ChainConfig) (signer : Address) : TransactionAction → Option MatchEntry
  | .submitMatchResult r =>
      some (.submitted r.matchId signer
        (Attestation.isQuarantined config.attestationQuarantineThreshold r.antiCheatScore))
  | .distributeReward id _ => some (.paid id signer)
  | _ => none

/-- What a call adds to the history. -/
def Call.entry (sha256 : List UInt8 → Hash) (ex : Executor) (s : StateStore) (c : Call) :
    Option MatchEntry :=
  if c.succeeds sha256 ex s then entryOf ex.chainConfig c.tx.signer c.tx.transaction.action
  else none

/-- What a call does to the records of matches, together with its entry. -/
inductive MatchEffect (s t : StateStore) : Option MatchEntry → Prop
  | none (hSettlement : ∀ i, settlementOf t i = settlementOf s i)
      (hResult : ∀ i, matchResultOf t i = matchResultOf s i) : MatchEffect s t none
  | submitted {a : Address} {x : Attestor} {r : MatchResult} {y : MatchSettlement}
      (hAttestor : attestorOf s a = some x) (hGame : x.gameId = r.gameId)
      (hOpen : y.settled = false)
      (hSettlement : ∀ i, settlementOf t i = if r.matchId = i then some y else settlementOf s i)
      (hResult : ∀ i, matchResultOf t i = if r.matchId = i then some r else matchResultOf s i) :
      MatchEffect s t (some (.submitted r.matchId a y.quarantined))
  | paid {a : Address} {id : Hash} {rewards : List (Address × UInt64)} {y : MatchSettlement}
      (hPays : PaysRewards s a id rewards) (hSettled : y.settled = true)
      (hFree : y.quarantined = false)
      (hSettlement : ∀ i, settlementOf t i = if id = i then some y else settlementOf s i)
      (hResult : ∀ i, matchResultOf t i = matchResultOf s i) :
      MatchEffect s t (some (.paid id a))

theorem settlementOf_of_keeps (h : Store.Holds (Keeps F s) t) (hF : Family.matchSettlement ∉ F)
    (i : Hash) : settlementOf t i = settlementOf s i := by
  rw [settlementOf, h (.matchSettlement i) hF, ← settlementOf]

theorem matchResultOf_of_keeps (h : Store.Holds (Keeps F s) t) (hF : Family.matchResult ∉ F)
    (i : Hash) : matchResultOf t i = matchResultOf s i := by
  rw [matchResultOf, h (.matchResult i) hF, ← matchResultOf]

theorem attestorOf_of_keeps (h : Store.Holds (Keeps F s) t) (hF : Family.attestor ∉ F)
    (a : Address) : attestorOf t a = attestorOf s a := by
  rw [attestorOf, h (.attestor a) hF, ← attestorOf]

theorem matchEffect_dispatchAction (action : TransactionAction) (signer : Address)
    (t h : UInt64) (s : StateStore) :
    (ex.dispatchAction sha256 action signer t h).Wp (fun o u => MatchEffect s u
      (if o.toOption.isSome then entryOf ex.chainConfig signer action else none)) s := by
  have hSame : MatchEffect s s none := .none (fun _ => rfl) fun _ => rfl
  have hKeeps := run_keeps (dispatchAction_keeps sha256 ex action signer t h (s := s))
  cases action
  case submitMatchResult r =>
    refine Prog.Wp.mono (Prog.wp_onOk_bind_pure.mpr
      (submitMatchResult_effect ex.chainConfig signer r t)) fun o u hu => ?_
    cases o with
    | ok result =>
        obtain ⟨⟨x, hx, hGame⟩, rfl⟩ := hu
        refine .submitted (y := openSettlement ex.chainConfig r t) hx hGame rfl (fun i => ?_)
          fun i => ?_
        · rw [settlementOf_withSettlement, settlementOf_withMatchResult]
          rfl
        · rw [matchResultOf_withSettlement, matchResultOf_withMatchResult]
    | err | panic =>
        rw [hu]
        exact hSame
  case distributeReward id rewards =>
    refine Prog.Wp.mono (Prog.wp_onOk_bind_pure.mpr
      (distributeReward_effect signer id rewards t)) fun o u hu => ?_
    cases o with
    | ok result =>
        obtain ⟨hPays, ⟨y, hSettled, hFree, hSettlement⟩, hResult⟩ := hu
        exact .paid hPays hSettled hFree hSettlement hResult
    | err | panic =>
        rw [hu]
        exact hSame
  all_goals
    unfold Prog.Wp
    have hNone := MatchEffect.none (settlementOf_of_keeps hKeeps (by simp [writtenBy]))
      (matchResultOf_of_keeps hKeeps (by simp [writtenBy]))
    simpa only [entryOf, ite_self] using hNone

/-- The effect is the same on stores with the same records of matches. -/
theorem MatchEffect.congr {s' t' : StateStore} {e : Option MatchEntry} (h : MatchEffect s' t' e)
    (hAttestor : ∀ a, attestorOf s' a = attestorOf s a)
    (hSettlement : ∀ i, settlementOf s' i = settlementOf s i)
    (hResult : ∀ i, matchResultOf s' i = matchResultOf s i)
    (hSettlement' : ∀ i, settlementOf t i = settlementOf t' i)
    (hResult' : ∀ i, matchResultOf t i = matchResultOf t' i) : MatchEffect s t e := by
  cases h with
  | none h₁ h₂ =>
      exact .none (fun i => by rw [hSettlement', h₁, hSettlement])
        fun i => by rw [hResult', h₂, hResult]
  | submitted hx hGame hOpen h₁ h₂ =>
      exact .submitted (by rwa [hAttestor] at hx) hGame hOpen
        (fun i => by rw [hSettlement', h₁, hSettlement]) fun i => by rw [hResult', h₂, hResult]
  | paid hPays hSettled hFree h₁ h₂ =>
      unfold PaysRewards at hPays
      rw [hSettlement, hAttestor, hResult] at hPays
      exact .paid hPays hSettled hFree (fun i => by rw [hSettlement', h₁, hSettlement])
        fun i => by rw [hResult', h₂, hResult]

theorem matchEffect_call (c : Call) (s : StateStore) :
    MatchEffect s (c.next sha256 ex s) (c.entry sha256 ex s) := by
  have hResult := (ex.executeTransaction_run sha256 c.tx c.height c.proposer s).stages
  unfold Call.entry Call.next
  rcases hResult with ⟨⟨e, hErr⟩, hSame⟩ | ⟨s₁, hStages⟩
  · have hFails : c.succeeds sha256 ex s = false := by rw [Call.succeeds, hErr]
    rw [hFails, hSame]
    exact .none (fun _ => rfl) fun _ => rfl
  · have hFee := hStages.collected.keeps
    have hSpent := hStages.spent
    have hAction : (ex.action sha256 c.tx c.height).Wp (fun o u => MatchEffect s₁ u
        (if o.toOption.isSome then entryOf ex.chainConfig c.tx.signer c.tx.transaction.action
          else none)) s₁ :=
      matchEffect_dispatchAction c.tx.transaction.action c.tx.signer c.tx.transaction.timestamp
        c.height s₁
    rw [Call.succeeds_eq hStages]
    exact hAction.congr (attestorOf_of_keeps hFee (by simp [feeFamilies]))
      (settlementOf_of_keeps hFee (by simp [feeFamilies]))
      (matchResultOf_of_keeps hFee (by simp [feeFamilies]))
      (settlementOf_of_keeps hSpent (by simp)) (matchResultOf_of_keeps hSpent (by simp))

/-- The call opens no match that is settled or in quarantine, and pays only for a game
whose only attestor is its signer. -/
def Call.Careful (s : StateStore) (c : Call) : Prop :=
  match c.tx.transaction.action with
  | .submitMatchResult r => ∀ x, settlementOf s r.matchId = some x →
      x.settled = false ∧ x.quarantined = false
  | .distributeReward id _ => ∀ r, matchResultOf s id = some r → ∀ a x,
      attestorOf s a = some x → x.gameId = r.gameId → a = c.tx.signer
  | _ => True

theorem Call.Careful.submitted (h : c.Careful s) {id : Hash} {a : Address} {q : Bool}
    (hEntry : c.entry sha256 ex s = some (.submitted id a q)) {x : MatchSettlement}
    (hx : settlementOf s id = some x) : x.settled = false ∧ x.quarantined = false := by
  unfold Call.entry at hEntry
  split at hEntry
  · unfold Call.Careful at h
    unfold entryOf at hEntry
    split at hEntry
    next r hAction =>
      rw [hAction] at h
      simp only [Option.some.injEq, MatchEntry.submitted.injEq] at hEntry
      exact h x (hEntry.1 ▸ hx)
    next => cases hEntry
    next => cases hEntry
  · cases hEntry

theorem Call.Careful.paid (h : c.Careful s) {id : Hash} {a : Address}
    (hEntry : c.entry sha256 ex s = some (.paid id a)) {r : MatchResult}
    (hr : matchResultOf s id = some r) {b : Address} {x : Attestor}
    (hx : attestorOf s b = some x) (hGame : x.gameId = r.gameId) : b = a := by
  unfold Call.entry at hEntry
  split at hEntry
  · unfold Call.Careful at h
    unfold entryOf at hEntry
    split at hEntry
    next => cases hEntry
    next i rewards hAction =>
      rw [hAction] at h
      simp only [Option.some.injEq, MatchEntry.paid.injEq] at hEntry
      rw [← hEntry.2]
      exact h r (hEntry.1 ▸ hr) b x hx hGame
    next => cases hEntry
  · cases hEntry

end Calls

/-! ## Runs -/

section Runs

variable {sha256 : List UInt8 → Hash} {ex : Executor} {s : StateStore}
variable {a : Address} {t : StateStore} {history : List MatchEntry}

/-- The history is final, and the store knows it. -/
structure Settled (history : List MatchEntry) (s : StateStore) : Prop where
  final : Final history
  paid : ∀ id a, .paid id a ∈ history → ∃ x, settlementOf s id = some x ∧ x.settled = true
  quarantined : ∀ id a, .submitted id a true ∈ history →
    ∃ x, settlementOf s id = some x ∧ x.quarantined = true
  submitter : ∀ id r, matchResultOf s id = some r → ∃ a x, submitterOf history id = some a ∧
    attestorOf s a = some x ∧ x.gameId = r.gameId

/-- A step that leaves the records of matches and the games of attestors. -/
theorem Settled.keep (h : Settled history s)
    (hKept : ∀ a x, attestorOf s a = some x → ∃ y, attestorOf t a = some y ∧ y.gameId = x.gameId)
    (hSettlement : ∀ i, settlementOf t i = settlementOf s i)
    (hResult : ∀ i, matchResultOf t i = matchResultOf s i) : Settled history t where
  final := h.final
  paid id a ha := by
    rw [hSettlement]
    exact h.paid id a ha
  quarantined id a ha := by
    rw [hSettlement]
    exact h.quarantined id a ha
  submitter id r hr := by
    rw [hResult] at hr
    obtain ⟨a, x, ha, hx, hGame⟩ := h.submitter id r hr
    obtain ⟨y, hy, hSame⟩ := hKept a x hx
    exact ⟨a, y, ha, hy, hSame.trans hGame⟩

/-- A result that opens no match anew. -/
theorem Settled.submit (h : Settled history s)
    (hKept : ∀ a x, attestorOf s a = some x → ∃ y, attestorOf t a = some y ∧ y.gameId = x.gameId)
    {x : Attestor} {r : MatchResult} {y : MatchSettlement} (hAttestor : attestorOf s a = some x)
    (hGame : x.gameId = r.gameId)
    (hSettlement : ∀ i, settlementOf t i = if r.matchId = i then some y else settlementOf s i)
    (hResult : ∀ i, matchResultOf t i = if r.matchId = i then some r else matchResultOf s i)
    (hOpen : ∀ x, settlementOf s r.matchId = some x → x.settled = false ∧ x.quarantined = false) :
    Settled (history ++ [.submitted r.matchId a y.quarantined]) t where
  final := h.final.submitted _ _ _
  paid id b hb := by
    have hOld : .paid id b ∈ history := by simpa using hb
    obtain ⟨z, hz, hSettled⟩ := h.paid id b hOld
    rw [hSettlement]
    by_cases hEq : r.matchId = id
    · subst hEq
      exact absurd hSettled (by simp [(hOpen z hz).1])
    · rw [if_neg hEq]
      exact ⟨z, hz, hSettled⟩
  quarantined id b hb := by
    rw [hSettlement]
    rcases List.mem_append.mp hb with hOld | hNew
    · obtain ⟨z, hz, hQuarantined⟩ := h.quarantined id b hOld
      by_cases hEq : r.matchId = id
      · subst hEq
        exact absurd hQuarantined (by simp [(hOpen z hz).2])
      · rw [if_neg hEq]
        exact ⟨z, hz, hQuarantined⟩
    · have hLast := List.mem_singleton.mp hNew
      simp only [MatchEntry.submitted.injEq] at hLast
      rw [if_pos hLast.1.symm]
      exact ⟨y, rfl, hLast.2.2.symm⟩
  submitter id r' hr := by
    rw [hResult] at hr
    rw [submitterOf_append]
    show ∃ b z, (if r.matchId = id then some a else submitterOf history id) = some b ∧ _
    by_cases hEq : r.matchId = id
    · rw [if_pos hEq] at hr ⊢
      obtain ⟨z, hz, hSame⟩ := hKept a x hAttestor
      rw [← Option.some.inj hr]
      exact ⟨a, z, rfl, hz, hSame.trans hGame⟩
    · rw [if_neg hEq] at hr ⊢
      obtain ⟨b, z, hb, hz, hOther⟩ := h.submitter id r' hr
      obtain ⟨w, hw, hSame⟩ := hKept b z hz
      exact ⟨b, w, hb, hw, hSame.trans hOther⟩

/-- A payment by the only attestor of the game. -/
theorem Settled.pay (h : Settled history s)
    (hKept : ∀ a x, attestorOf s a = some x → ∃ y, attestorOf t a = some y ∧ y.gameId = x.gameId)
    {id : Hash} {rewards : List (Address × UInt64)} {y : MatchSettlement}
    (hPays : PaysRewards s a id rewards) (hSettled : y.settled = true)
    (hSettlement : ∀ i, settlementOf t i = if id = i then some y else settlementOf s i)
    (hResult : ∀ i, matchResultOf t i = matchResultOf s i)
    (hOnly : ∀ r, matchResultOf s id = some r → ∀ b x, attestorOf s b = some x →
      x.gameId = r.gameId → b = a) :
    Settled (history ++ [.paid id a]) t := by
  obtain ⟨z, attestor, result, hz, -, hr, hNotSettled, hFree, -, -⟩ := hPays
  have hUnpaid : ∀ b, .paid id b ∉ history := by
    intro b hb
    obtain ⟨z', hz', hPaid⟩ := h.paid id b hb
    rw [Option.some.inj (hz'.symm.trans hz), hNotSettled] at hPaid
    cases hPaid
  have hClean : ∀ b, .submitted id b true ∉ history := by
    intro b hb
    obtain ⟨z', hz', hQuarantined⟩ := h.quarantined id b hb
    rw [Option.some.inj (hz'.symm.trans hz), hFree] at hQuarantined
    cases hQuarantined
  have hCount : history.countP (MatchEntry.paysFor id) = 0 := by
    rw [List.countP_eq_zero]
    intro e he hPay
    cases e with
    | submitted i b q => cases hPay
    | paid i b =>
        have hEq : i = id := by simpa [MatchEntry.paysFor] using hPay
        exact hUnpaid b (hEq ▸ he)
  have hSigner : submitterOf history id = some a := by
    obtain ⟨b, x, hb, hx, hGame⟩ := h.submitter id result hr
    rwa [hOnly result hr b x hx hGame] at hb
  refine ⟨h.final.paid hCount hClean hSigner, fun i b hb => ?_, fun i b hb => ?_,
    fun i r hri => ?_⟩
  · rw [hSettlement]
    rcases List.mem_append.mp hb with hOld | hNew
    · by_cases hEq : id = i
      · exact ⟨y, if_pos hEq, hSettled⟩
      · rw [if_neg hEq]
        exact h.paid i b hOld
    · have hLast := List.mem_singleton.mp hNew
      simp only [MatchEntry.paid.injEq] at hLast
      exact ⟨y, if_pos hLast.1.symm, hSettled⟩
  · have hOld : .submitted i b true ∈ history := by simpa using hb
    rw [hSettlement, if_neg (by rintro rfl; exact hClean b hOld)]
    exact h.quarantined i b hOld
  · rw [hResult] at hri
    rw [submitterOf_append]
    obtain ⟨b, x, hb, hx, hGame⟩ := h.submitter i r hri
    obtain ⟨w, hw, hSame⟩ := hKept b x hx
    exact ⟨b, w, hb, hw, hSame.trans hGame⟩

theorem Settled.call (h : Settled history s) {c : Call} (hCareful : c.Careful s) :
    Settled (history ++ (c.entry sha256 ex s).toList) (c.next sha256 ex s) := by
  have hEffect : MatchEffect s (c.next sha256 ex s) (c.entry sha256 ex s) :=
    matchEffect_call c s
  have hKept : ∀ a x, attestorOf s a = some x →
      ∃ y, attestorOf (c.next sha256 ex s) a = some y ∧ y.gameId = x.gameId :=
    fun a x hx => game_of_call hx
  cases hEntry : c.entry sha256 ex s with
  | none =>
      rw [hEntry] at hEffect
      cases hEffect with
      | none hSettlement hResult =>
          rw [Option.toList_none, List.append_nil]
          exact h.keep hKept hSettlement hResult
  | some e =>
      rw [hEntry] at hEffect
      cases hEffect with
      | submitted hAttestor hGame hOpen hSettlement hResult =>
          exact h.submit hKept hAttestor hGame hSettlement hResult
            fun x hx => hCareful.submitted hEntry hx
      | paid hPays hSettled hFree hSettlement hResult =>
          exact h.pay hKept hPays hSettled hSettlement hResult
            fun r hr b x hx hSame => hCareful.paid hEntry hr hx hSame

theorem Settled.calls (h : Settled history s) {calls : List Call}
    (hCareful : Along (Call.next sha256 ex) Call.Careful s calls) :
    Settled (history ++ collect (Call.next sha256 ex) (Call.entry sha256 ex) s calls)
      (after (Call.next sha256 ex) s calls) := by
  induction calls generalizing history s with
  | nil =>
      show Settled (history ++ []) s
      rwa [List.append_nil]
  | cons c rest ih =>
      have hRest := ih (h.call hCareful.1) hCareful.2
      rwa [List.append_assoc] at hRest

/-- From a store without match results, careful calls keep settlement final. -/
theorem settlement_final {s₀ : StateStore}
    (hResult : ∀ i, matchResultOf s₀ i = none) (calls : List Call)
    (hCareful : Along (Call.next sha256 ex) Call.Careful s₀ calls) :
    Final (collect (Call.next sha256 ex) (Call.entry sha256 ex) s₀ calls) := by
  have hStart : Settled [] s₀ :=
    ⟨.nil, by simp, by simp, fun id r hr => by rw [hResult] at hr; cases hr⟩
  exact (hStart.calls hCareful).final

/-- A match of the trader against somebody else. -/
def sampleMatch : MatchResult where
  matchId := Hash.ofByte 1
  gameId := "chess"
  timestamp := 7
  players := [Address.ofByte 1, Address.ofByte 2]
  scores := [1, 0]
  winners := [Address.ofByte 1]
  rewardPool := 50
  serverSignature := []
  antiCheatScore := none
  replayRef := none

/-- Register for the game and submit the result, pay the winner. -/
def settleMatch : List Call :=
  [traderCall 0 (.registerAttestor "chess" "" ""),
   traderCall 1 (.submitMatchResult sampleMatch),
   traderCall 2 (.distributeReward (Hash.ofByte 1) [(Address.ofByte 1, 50)])]

/-- Submit the result once more, pay the winner once more. -/
def resubmitMatch : List Call :=
  [traderCall 3 (.submitMatchResult sampleMatch),
   traderCall 4 (.distributeReward (Hash.ofByte 1) [(Address.ofByte 1, 50)])]

/-- Whether an address is the only attestor, read off the entries of the store. -/
def onlyAttestor (s : StateStore) (a : Address) : Bool :=
  s.toList.all fun e => match e.1 with
    | .attestor b => b = a
    | _ => true

theorem eq_of_onlyAttestor {b : Address} {x : Attestor} (h : onlyAttestor s a = true)
    (hx : attestorOf s b = some x) : b = a := by
  obtain ⟨r, hr, -⟩ := Option.map_eq_some_iff.mp hx
  have hMem := Std.ExtDTreeMap.mem_toList_iff_get?_eq_some.mpr hr
  simpa using List.all_eq_true.mp h _ hMem

theorem settlement_final_once :
    (collect sampleCall (Call.entry (fun _ => Hash.zero) Executor.devnet) traderStore
        settleMatch).length = 2 ∧
      Final (collect sampleCall (Call.entry (fun _ => Hash.zero) Executor.devnet) traderStore
        settleMatch) := by
  refine ⟨by decide +kernel, settlement_final (fun i => ?_) settleMatch ⟨trivial, ?_, ?_, trivial⟩⟩
  · rw [matchResultOf, get?_traderStore (by simp)]
    rfl
  · have hNone : settlementOf (after sampleCall traderStore (settleMatch.take 1))
        (Hash.ofByte 1) = none := by decide +kernel
    exact fun x hx => nomatch hNone.symm.trans hx
  · have hOnly : onlyAttestor (after sampleCall traderStore (settleMatch.take 2))
        (Address.ofByte 1) = true := by decide +kernel
    exact fun r _ b x hx _ => eq_of_onlyAttestor hOnly hx

/-- Submitting the result again opens the settled match: it is paid for twice. -/
theorem resubmission_pays_twice :
    (∀ i, matchResultOf traderStore i = none) ∧
      (collect sampleCall (Call.entry (fun _ => Hash.zero) Executor.devnet) traderStore
        (settleMatch ++ resubmitMatch)).countP (MatchEntry.paysFor (Hash.ofByte 1)) = 2 ∧
      ¬ Final (collect sampleCall (Call.entry (fun _ => Hash.zero) Executor.devnet) traderStore
        (settleMatch ++ resubmitMatch)) := by
  have hTwice : (collect sampleCall (Call.entry (fun _ => Hash.zero) Executor.devnet) traderStore
      (settleMatch ++ resubmitMatch)).countP (MatchEntry.paysFor (Hash.ofByte 1)) = 2 := by
    decide +kernel
  refine ⟨fun i => ?_, hTwice, fun h => ?_⟩
  · rw [matchResultOf, get?_traderStore (by simp)]
    rfl
  · have hOnce := h.once (Hash.ofByte 1)
    omega

end Runs

end Polay.Execution
