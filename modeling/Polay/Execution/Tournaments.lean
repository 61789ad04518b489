import Polay.Lib.Sums
import Polay.Execution.Calls
import Polay.Execution.Creation

/-!
# Tournaments

A tournament collects entry fees in a pool, keeps its participants in a list and in an index, and
pays its prizes out of the pool. `TournamentChange` says what a transaction can do to the record
of a tournament.
-/

namespace Polay.Execution

open Lib Lib.Machine Lib.Trace Polay.Types State

variable {sha256 : List UInt8 → Hash} {ex : Executor} {s t : StateStore}

/-! ## The records of tournaments -/

/-- The families of the records of tournaments. -/
def tournamentFamilies : List Family := [.tournament, .tournamentParticipant]

/-- Whether the index marks an account as a participant. -/
def entered (s : StateStore) (id : Hash) (a : Address) : Bool :=
  ((s.get? (.tournamentParticipant id a)).map (·.val)).getD false

/-- The store with a participant marked. -/
def withParticipant (s : StateStore) (id : Hash) (a : Address) : StateStore :=
  s.insert (.tournamentParticipant id a) ⟨true, trivial⟩

/-- From `s` to `t` the record `x` of a tournament is written, and an account may be marked. -/
structure TournamentWrite (x : Tournament) (marked : Option Address) (s t : StateStore) :
    Prop where
  records : ∀ i, tournamentOf t i = if i = x.tournamentId then some x else tournamentOf s i
  marks : ∀ i a, entered t i a =
    if i = x.tournamentId ∧ marked = some a then true else entered s i a

section Writes

variable {x : Tournament} {marked : Option Address}

theorem tournamentOf_of_sameOn (h : SameOn tournamentFamilies s t) (i : Hash) :
    tournamentOf t i = tournamentOf s i := by
  rw [tournamentOf, h (.tournament i) (by simp [familyOf, tournamentFamilies]), tournamentOf]

theorem entered_of_sameOn (h : SameOn tournamentFamilies s t) (i : Hash) (a : Address) :
    entered t i a = entered s i a := by
  rw [entered, h (.tournamentParticipant i a) (by simp [familyOf, tournamentFamilies]), entered]

theorem TournamentWrite.congr {s₁ t₁ : StateStore} (h : TournamentWrite x marked s₁ t₁)
    (hs : SameOn tournamentFamilies s s₁) (ht : SameOn tournamentFamilies t₁ t) :
    TournamentWrite x marked s t := by
  refine ⟨fun i => ?_, fun i a => ?_⟩
  · rw [tournamentOf_of_sameOn ht, h.records, tournamentOf_of_sameOn hs]
  · rw [entered_of_sameOn ht, h.marks, entered_of_sameOn hs]

theorem tournamentOf_withTournament (s : StateStore) (x : Tournament) (i : Hash) :
    tournamentOf (withTournament s x) i =
      if i = x.tournamentId then some x else tournamentOf s i :=
  Store.read_insert s (.tournament i) (Option.map (·.val)) (by simp [eq_comm]) (by rintro ⟨⟩; rfl)

theorem entered_withTournament (s : StateStore) (x : Tournament) (i : Hash) (a : Address) :
    entered (withTournament s x) i a = entered s i a := by
  rw [entered, withTournament, Store.get?_insert_ne (by simp), entered]

theorem entered_withParticipant (s : StateStore) (id : Hash) (p : Address) (i : Hash)
    (a : Address) :
    entered (withParticipant s id p) i a = if i = id ∧ p = a then true else entered s i a :=
  Store.read_insert s (.tournamentParticipant i a) (fun o => (o.map Subtype.val).getD false)
    (by simp [eq_comm]) (by rintro ⟨⟩; rfl)

theorem tournamentWrite_put (x : Tournament) (s : StateStore) :
    TournamentWrite x none s (withTournament s x) := by
  refine ⟨tournamentOf_withTournament s x, fun i a => ?_⟩
  rw [entered_withTournament, if_neg (by simp)]

theorem tournamentWrite_join {id : Hash} (hId : x.tournamentId = id) (p : Address)
    (s : StateStore) :
    TournamentWrite x (some p) s (withParticipant (withTournament s x) id p) := by
  refine ⟨fun i => ?_, fun i a => ?_⟩
  · rw [tournamentOf, withParticipant, Store.get?_insert_ne (by simp), ← tournamentOf,
      tournamentOf_withTournament]
  · rw [entered_withParticipant, entered_withTournament, hId]
    simp only [Option.some.injEq]

end Writes

/-! ## What a transaction does to tournaments -/

variable {action : TransactionAction}

/-- Whether an action is about tournaments. -/
def tournamentAction : TransactionAction → Bool
  | .createTournament .. | .joinTournament .. | .startTournament .. | .reportTournamentResults ..
  | .claimTournamentPrize .. | .cancelTournament .. => true
  | _ => false

theorem tournamentFamilies_apart (h : tournamentAction action = false) :
    ∀ f ∈ tournamentFamilies, f ∉ writtenBy action := by
  cases action <;> simp_all [tournamentAction, tournamentFamilies, writtenBy]

/-- The record an action writes, and the account it marks. -/
inductive TournamentChange (new : Hash → Prop) (signer : Address) (s : StateStore) :
    TransactionAction → Tournament → Option Address → Prop
  | create (name gameId : String) (fee : UInt64) (maxP minP : UInt32) (start : UInt64)
      (prizes : List UInt32) (x : Tournament) (hNew : new x.tournamentId)
      (hPool : x.prizePool = 0) (hNobody : x.participants = []) (hStatus : x.status = .registration)
      (hPrizes : x.prizeDistribution = prizes) (hClaimed : x.prizesClaimed = []) :
      TournamentChange new signer s
        (.createTournament name gameId fee maxP minP start prizes) x none
  | join (x : Tournament) (hOld : tournamentOf s x.tournamentId = some x)
      (hStatus : x.status = .registration) (hOut : entered s x.tournamentId signer = false)
      (hRoom : x.participants.length < x.maxParticipants.toNat) :
      TournamentChange new signer s (.joinTournament x.tournamentId)
        { x with
          prizePool := x.prizePool + x.entryFee
          participants := x.participants ++ [signer] } (some signer)
  | start (x : Tournament) (hOld : tournamentOf s x.tournamentId = some x)
      (hStatus : x.status = .registration) :
      TournamentChange new signer s (.startTournament x.tournamentId)
        { x with status := .active } none
  | report (x : Tournament) (rankings : List Address) (height : UInt64)
      (hOld : tournamentOf s x.tournamentId = some x) (hStatus : x.status = .active) :
      TournamentChange new signer s (.reportTournamentResults x.tournamentId rankings)
        { x with
          rankings
          prizesClaimed := List.replicate rankings.length false
          endHeight := some height
          status := .completed } none
  | claim (x : Tournament) (i : Nat) (share : UInt32)
      (hOld : tournamentOf s x.tournamentId = some x) (hStatus : x.status = .completed)
      (hRank : Tournaments.rankOf x.rankings signer = some i)
      (hOpen : x.prizesClaimed[i]? = some false) (hShare : x.prizeDistribution[i]? = some share) :
      TournamentChange new signer s (.claimTournamentPrize x.tournamentId)
        { x with prizesClaimed := x.prizesClaimed.set i true } none
  | cancel (x : Tournament) (hOld : tournamentOf s x.tournamentId = some x)
      (hStatus : x.status = .registration) :
      TournamentChange new signer s (.cancelTournament x.tournamentId)
        { x with status := .cancelled, prizePool := 0 } none

/-- What a transaction does to tournaments. Results without any ranking are written before the
transaction panics. -/
inductive TournamentEffect (new : Hash → Prop) (action : TransactionAction) (signer : Address)
    (s t : StateStore) (b : Bool) : Prop
  | kept (hKept : b = true → tournamentAction action = false)
      (h : SameOn tournamentFamilies s t)
  | changed {x : Tournament} {marked : Option Address}
      (hFailed : b = false → ∃ id, action = .reportTournamentResults id [])
      (hChange : TournamentChange new signer s action x marked) (h : TournamentWrite x marked s t)

theorem TournamentChange.congr {new : Hash → Prop} {signer : Address} {s₁ : StateStore}
    {x : Tournament} {marked : Option Address}
    (h : TournamentChange new signer s₁ action x marked) (hs : SameOn tournamentFamilies s s₁) :
    TournamentChange new signer s action x marked := by
  have hRecords := tournamentOf_of_sameOn hs
  cases h with
  | create name gameId fee maxP minP start prizes _ hNew hPool hNobody hStatus hPrizes hClaimed =>
      exact .create name gameId fee maxP minP start prizes x hNew hPool hNobody hStatus hPrizes
        hClaimed
  | join x hOld hStatus hOut hRoom =>
      exact .join x (hRecords _ ▸ hOld) hStatus (entered_of_sameOn hs _ _ ▸ hOut) hRoom
  | start x hOld hStatus => exact .start x (hRecords _ ▸ hOld) hStatus
  | report x rankings height hOld hStatus =>
      exact .report x rankings height (hRecords _ ▸ hOld) hStatus
  | claim x i share hOld hStatus hRank hOpen hShare =>
      exact .claim x i share (hRecords _ ▸ hOld) hStatus hRank hOpen hShare
  | cancel x hOld hStatus => exact .cancel x (hRecords _ ▸ hOld) hStatus

theorem TournamentEffect.congr {new : Hash → Prop} {signer : Address} {s₁ t₁ : StateStore}
    {b : Bool} (h : TournamentEffect new action signer s₁ t₁ b)
    (hs : SameOn tournamentFamilies s s₁) (ht : SameOn tournamentFamilies t₁ t) :
    TournamentEffect new action signer s t b := by
  cases h with
  | kept hKept h => exact .kept hKept (hs.trans (h.trans ht))
  | changed hFailed hChange h => exact .changed hFailed (hChange.congr hs) (h.congr hs ht)

/-! ### Refunds -/

/-- The store after one refund. -/
def refunded (fee : UInt64) (s : StateStore) (a : Address) : StateStore :=
  let x := (accountOf s a).getD (AccountState.new a 0)
  withAccount s { x with balance := x.balance + fee }

/-- The store after the refunds of a tournament. -/
def refundedAll (x : Tournament) (s : StateStore) : StateStore :=
  if 0 < x.entryFee then x.participants.foldl (refunded x.entryFee) s else s

theorem balanceOf_refunded (fee : UInt64) (s : StateStore) (a b : Address) :
    balanceOf (refunded fee s a) b =
      if b = a then (balanceOf s a + fee.toNat) % 2 ^ 64 else balanceOf s b := by
  obtain ⟨hAddress, hBalance⟩ := balance_getD s a 0
  have hWrite : ∀ x : AccountState, x.address = a →
      balanceOf (withAccount s { x with balance := x.balance + fee }) b =
        if b = a then (x.balance + fee).toNat else balanceOf s b :=
    fun x hx => balanceOf_withAccount s (x := { x with balance := x.balance + fee }) hx b
  rw [refunded, hWrite _ hAddress, UInt64.toNat_add, hBalance]

/-- Every occurrence in the list is one refund. -/
theorem balanceOf_foldl_refunded (fee : UInt64) (l : List Address) (s : StateStore)
    (a : Address) :
    balanceOf (l.foldl (refunded fee) s) a =
      (balanceOf s a + l.count a * fee.toNat) % 2 ^ 64 := by
  induction l generalizing s with
  | nil =>
      have hLt := balanceOf_lt s a
      rw [List.foldl_nil, List.count_nil, Nat.zero_mul, Nat.add_zero, Nat.mod_eq_of_lt hLt]
  | cons b rest ih =>
      rw [List.foldl_cons, ih, balanceOf_refunded]
      by_cases hEq : a = b
      · subst hEq
        rw [if_pos rfl, List.count_cons_self, Nat.mod_add_mod, Nat.add_mul, Nat.one_mul]
        congr 1
        omega
      · rw [if_neg hEq, List.count_cons_of_ne (Ne.symm hEq)]

theorem balanceOf_refundedAll (x : Tournament) (s : StateStore) (a : Address) :
    balanceOf (refundedAll x s) a =
      (balanceOf s a + x.participants.count a * x.entryFee.toNat) % 2 ^ 64 := by
  unfold refundedAll
  split
  · exact balanceOf_foldl_refunded x.entryFee x.participants s a
  · rename_i hZero
    rw [eq_zero_of_not_pos hZero, UInt64.toNat_zero, Nat.mul_zero, Nat.add_zero,
      Nat.mod_eq_of_lt (balanceOf_lt s a)]

theorem sameOn_refundedAll {F : List Family} (hF : .account ∉ F) (x : Tournament)
    (s : StateStore) : SameOn F s (refundedAll x s) := by
  have hOne : ∀ fee s a, SameOn F s (refunded fee s a) := fun fee s a => sameOn_insert hF s _
  have hAll : ∀ (l : List Address) s, SameOn F s (l.foldl (refunded x.entryFee) s) := by
    intro l
    induction l with
    | nil => exact SameOn.refl F
    | cons a rest ih => exact fun s => (hOne _ s a).trans (ih _)
  unfold refundedAll
  split
  · exact hAll x.participants s
  · exact .refl F s

section Handlers

variable {β : Type} {Q : Outcome ExecutionError β → StateStore → Prop}

theorem wp_isTournamentParticipant_bind {id : Hash} {a : Address} {f : Bool → Handler β} :
    ((isTournamentParticipant id a).bind f).Wp Q s ↔ (f (entered s id a)).Wp Q s := Iff.rfl

theorem wp_setTournamentParticipant_bind {id : Hash} {a : Address} {f : Unit → Handler β} :
    ((setTournamentParticipant id a).bind f).Wp Q s ↔ (f ()).Wp Q (withParticipant s id a) :=
  Iff.rfl

theorem wp_getChainHeight_bind {f : UInt64 → Handler β} :
    (getChainHeight.bind f).Wp Q s ↔
      (f (((s.get? .chainHeight).map (·.val)).getD (0 : UInt64))).Wp Q s := Iff.rfl

theorem wp_refundEntryFees_bind {x : Tournament} {f : Unit → Handler β} :
    ((Prog.when (0 < x.entryFee)
        (Prog.each (Tournaments.refundEntryFee x.entryFee) x.participants)).bind f).Wp Q s ↔
      (f ()).Wp Q (refundedAll x s) := by
  rw [Prog.wp_when_bind, Prog.wp_each_bind (g := refunded x.entryFee) fun _ _ => rfl, refundedAll]
  split <;> simp_all

variable {new : Hash → Prop} {signer : Address}

/-- How a handler of tournaments ends. -/
def TournamentEnd {α : Type} (new : Hash → Prop) (action : TransactionAction) (signer : Address)
    (s : StateStore) (o : Outcome ExecutionError α) (t : StateStore) : Prop :=
  TournamentEffect new action signer s t o.toOption.isSome

theorem tournamentEnd_err {α : Type} {action : TransactionAction} {e : ExecutionError} :
    TournamentEnd new action signer s (.err e : Outcome ExecutionError α) s :=
  .kept (fun h => by cases h) (.refl _ s)

theorem createTournament_wp (s : StateStore) (name gameId : String) (fee : UInt64)
    (maxP minP : UInt32) (start : UInt64) (prizes : List UInt32) (timestamp : UInt64)
    (hNew : new (sha256 (Creation.message (.tournament signer name start)))) :
    (Tournaments.executeCreateTournament sha256 signer name gameId fee maxP minP start prizes
      timestamp).Wp
      (TournamentEnd new (.createTournament name gameId fee maxP minP start prizes) signer s)
      s := by
  simp only [Tournaments.executeCreateTournament, Prog.bind_eq, Prog.wp_ensure_bind,
    wp_setTournament_bind]
  refine ⟨fun _ => tournamentEnd_err, fun _ => ?_⟩
  exact .changed (fun h => by cases h)
    (.create name gameId fee maxP minP start prizes _ hNew rfl rfl rfl rfl rfl)
    (tournamentWrite_put _ s)

theorem joinTournament_wp (s : StateStore) (id : Hash) :
    (Tournaments.executeJoinTournament signer id).Wp
      (TournamentEnd new (.joinTournament id) signer s) s := by
  simp only [Tournaments.executeJoinTournament, Tournaments.payEntryFee, Prog.bind_eq,
    wp_getTournament_bind, Prog.wp_require_bind, wp_getChainHeight_bind, Prog.wp_ensure_bind,
    wp_isTournamentParticipant_bind, Prog.wp_when_bind, Prog.bind_assoc, wp_loadAccount_bind,
    wp_debited_bind, wp_setAccount_bind, wp_setTournament_bind, wp_setTournamentParticipant_bind]
  refine ⟨fun _ => tournamentEnd_err, fun x hx => ⟨fun _ => tournamentEnd_err, fun hStatus =>
    ⟨fun _ => tournamentEnd_err, fun _ => ⟨fun _ => tournamentEnd_err, fun hOut =>
      ⟨fun _ => tournamentEnd_err, fun hRoom => ?_⟩⟩⟩⟩⟩
  obtain rfl := id_of_tournamentOf hx
  -- Whatever the fee did to accounts, the record and the mark are written after it.
  have hJoined : ∀ s₁, SameOn tournamentFamilies s s₁ →
      TournamentEffect new (.joinTournament x.tournamentId) signer s
        (withParticipant (withTournament s₁ { x with
          prizePool := x.prizePool + x.entryFee
          participants := x.participants ++ [signer] }) x.tournamentId signer) true := by
    intro s₁ hs₁
    refine .changed (fun h => by cases h)
      (.join x hx hStatus (Bool.eq_false_iff.mpr hOut) (Nat.not_le.mp hRoom)) ?_
    exact (tournamentWrite_join rfl signer s₁).congr hs₁ (.refl _ _)
  refine ⟨fun _ => ⟨fun _ => tournamentEnd_err, fun a _ => ⟨fun _ => tournamentEnd_err,
    fun _ => ?_⟩⟩, fun _ => ?_⟩
  · exact hJoined _ (sameOn_insert (by simp [familyOf, tournamentFamilies]) s _)
  · exact hJoined s (.refl _ s)

theorem startTournament_wp (s : StateStore) (id : Hash) (height : UInt64) :
    (Tournaments.executeStartTournament id height).Wp
      (TournamentEnd new (.startTournament id) signer s) s := by
  simp only [Tournaments.executeStartTournament, Prog.bind_eq, wp_getTournament_bind,
    Prog.wp_require_bind, Prog.wp_ensure_bind, wp_setTournament_bind]
  refine ⟨fun _ => tournamentEnd_err, fun x hx => ⟨fun _ => tournamentEnd_err, fun hStatus =>
    ⟨fun _ => tournamentEnd_err, fun _ => ⟨fun _ => tournamentEnd_err, fun _ => ?_⟩⟩⟩⟩
  obtain rfl := id_of_tournamentOf hx
  exact .changed (fun h => by cases h) (.start x hx hStatus) (tournamentWrite_put _ s)

theorem reportTournamentResults_wp (s : StateStore) (id : Hash) (rankings : List Address)
    (height : UInt64) :
    (Tournaments.executeReportTournamentResults signer id rankings height).Wp
      (TournamentEnd new (.reportTournamentResults id rankings) signer s) s := by
  simp only [Tournaments.executeReportTournamentResults, Prog.bind_eq, wp_getTournament_bind,
    Prog.wp_require_bind, Prog.wp_ensure_bind, wp_setTournament_bind, Prog.wp_unwrap_bind]
  refine ⟨fun _ => tournamentEnd_err, fun x hx => ⟨fun _ => tournamentEnd_err, fun hStatus =>
    ⟨fun _ => tournamentEnd_err, fun _ => ⟨fun _ => tournamentEnd_err, fun _ =>
      ⟨fun _ => tournamentEnd_err, fun _ => ⟨fun hNone => ?_, fun _ _ => ?_⟩⟩⟩⟩⟩⟩
  · obtain rfl := id_of_tournamentOf hx
    have hEmpty : rankings = [] := by
      cases rankings with
      | nil => rfl
      | cons a rest => cases hNone
    exact .changed (fun _ => ⟨_, by rw [hEmpty]⟩) (.report x rankings height hx hStatus)
      (tournamentWrite_put _ s)
  · obtain rfl := id_of_tournamentOf hx
    exact .changed (fun h => by cases h) (.report x rankings height hx hStatus)
      (tournamentWrite_put _ s)

/-- The prize of an account. -/
def prizeOf (x : Tournament) (a : Address) : UInt64 :=
  match Tournaments.rankOf x.rankings a with
  | some i => x.prizePool * (x.prizeDistribution[i]?.getD 0).toUInt64 / 100
  | none => 0

/-- A prize is paid: the claim of the signer is open, and the prize is added to its balance. -/
def ClaimEnd (signer : Address) (id : Hash) (s : StateStore) (b : Bool) (t : StateStore) :
    Prop :=
  if b then
    ∃ x i share, tournamentOf s id = some x ∧ x.status = .completed ∧
      Tournaments.rankOf x.rankings signer = some i ∧ x.prizesClaimed[i]? = some false ∧
      x.prizeDistribution[i]? = some share ∧
      t = withTournament (refunded (prizeOf x signer) s signer)
        { x with prizesClaimed := x.prizesClaimed.set i true }
  else t = s

theorem claimTournamentPrize_wp (s : StateStore) (id : Hash) :
    (Tournaments.executeClaimTournamentPrize signer id).Wp
      (fun o t => ClaimEnd signer id s o.toOption.isSome t) s := by
  simp only [Tournaments.executeClaimTournamentPrize, Prog.bind_eq, wp_getTournament_bind,
    Prog.wp_require_bind, Prog.wp_ensure_bind, Prog.wp_unwrap_bind, wp_getAccountOrNew_bind,
    wp_setAccount_bind, wp_setTournament_bind]
  refine ⟨fun _ => rfl, fun x hx => ⟨fun _ => rfl, fun hStatus => ⟨fun _ => rfl, fun i hi =>
    ⟨fun _ => rfl, fun claimed hClaimed => ⟨fun _ => rfl, fun hOpen =>
      ⟨fun _ => rfl, fun share hShare => ?_⟩⟩⟩⟩⟩⟩
  have hFalse : claimed = false := Bool.eq_false_iff.mpr hOpen
  refine ⟨x, i, share, hx, hStatus, hi, hFalse ▸ hClaimed, hShare, ?_⟩
  have hPrize : prizeOf x signer = x.prizePool * share.toUInt64 / 100 := by
    rw [prizeOf, hi]
    dsimp only
    rw [hShare]
    rfl
  rw [hPrize]
  rfl

theorem ClaimEnd.effect {id : Hash} {b : Bool} (h : ClaimEnd signer id s b t) :
    TournamentEffect new (.claimTournamentPrize id) signer s t b := by
  unfold ClaimEnd at h
  split at h
  · rename_i hOk
    obtain ⟨x, i, share, hx, hStatus, hi, hOpen, hShare, rfl⟩ := h
    obtain rfl := id_of_tournamentOf hx
    refine .changed (fun hNot => by rw [hOk] at hNot; cases hNot)
      (.claim x i share hx hStatus hi hOpen hShare) ?_
    refine (tournamentWrite_put _ _).congr ?_ (.refl _ _)
    exact sameOn_insert (by simp [familyOf, tournamentFamilies]) s _
  · rename_i hNot
    rw [h]
    exact .kept (fun hOk => absurd hOk hNot) (.refl _ s)

/-- A tournament is cancelled: the participants are refunded and the record is closed. -/
def CancelEnd (id : Hash) (s : StateStore) (b : Bool) (t : StateStore) : Prop :=
  if b then
    ∃ x, tournamentOf s id = some x ∧ x.status = .registration ∧
      t = withTournament (refundedAll x s) { x with status := .cancelled, prizePool := 0 }
  else t = s

theorem cancelTournament_wp (s : StateStore) (id : Hash) :
    (Tournaments.executeCancelTournament signer id).Wp
      (fun o t => CancelEnd id s o.toOption.isSome t) s := by
  simp only [Tournaments.executeCancelTournament, Prog.bind_eq, wp_getTournament_bind,
    Prog.wp_require_bind, Prog.wp_ensure_bind, wp_refundEntryFees_bind, wp_setTournament_bind]
  exact ⟨fun _ => rfl, fun x hx => ⟨fun _ => rfl, fun hStatus => ⟨fun _ => rfl, fun _ =>
    ⟨x, hx, hStatus, rfl⟩⟩⟩⟩

theorem CancelEnd.effect {id : Hash} {b : Bool} (h : CancelEnd id s b t) :
    TournamentEffect new (.cancelTournament id) signer s t b := by
  unfold CancelEnd at h
  split at h
  · rename_i hOk
    obtain ⟨x, hx, hStatus, rfl⟩ := h
    obtain rfl := id_of_tournamentOf hx
    refine .changed (fun hNot => by rw [hOk] at hNot; cases hNot) (.cancel x hx hStatus) ?_
    refine (tournamentWrite_put _ _).congr ?_ (.refl _ _)
    exact sameOn_refundedAll (by simp [tournamentFamilies]) x s
  · rename_i hNot
    rw [h]
    exact .kept (fun hOk => absurd hOk hNot) (.refl _ s)

/-- The identifiers of the tournaments an action can create. -/
def createsTournament (sha256 : List UInt8 → Hash) (action : TransactionAction)
    (signer : Address) (id : Hash) : Prop :=
  ∃ name gameId fee maxP minP start prizes,
    action = .createTournament name gameId fee maxP minP start prizes ∧
      id = sha256 (Creation.message (.tournament signer name start))

theorem tournamentEffect_dispatchAction (sha256 : List UInt8 → Hash) (ex : Executor)
    (action : TransactionAction) (signer : Address) (timestamp height : UInt64) (s : StateStore) :
    (ex.dispatchAction sha256 action signer timestamp height).Wp
      (TournamentEnd (createsTournament sha256 action signer) action signer s) s := by
  by_cases hTournament : tournamentAction action = false
  · exact .kept (fun _ => hTournament)
      (sameOn_of_keeps (run_keeps (dispatchAction_keeps sha256 ex action signer timestamp height))
        (tournamentFamilies_apart hTournament))
  -- The executor only repackages the events.
  have hEvents : ∀ {α β : Type} {new : Hash → Prop} {action : TransactionAction} {p : Handler α}
      {f : α → β}, p.Wp (TournamentEnd new action signer s) s →
      (p.bind fun a => .pure (f a)).Wp (TournamentEnd new action signer s) s :=
    fun {_ _ new action _ _} =>
      (Prog.wp_isSome_bind_pure (R := fun b t => TournamentEffect new action signer s t b)).mpr
  cases action
  case createTournament name gameId fee maxP minP start prizes =>
    exact hEvents (createTournament_wp s name gameId fee maxP minP start prizes timestamp
      ⟨name, gameId, fee, maxP, minP, start, prizes, rfl, rfl⟩)
  case joinTournament id => exact hEvents (joinTournament_wp s id)
  case startTournament id => exact hEvents (startTournament_wp s id height)
  case reportTournamentResults id rankings =>
    exact hEvents (reportTournamentResults_wp s id rankings height)
  case claimTournamentPrize id =>
    exact hEvents ((claimTournamentPrize_wp s id).mono fun _ _ h => h.effect)
  case cancelTournament id =>
    exact hEvents ((cancelTournament_wp s id).mono fun _ _ h => h.effect)
  all_goals exact absurd rfl hTournament

end Handlers

/-- What a call does to tournaments. -/
theorem tournamentEffect_call (s : StateStore) (c : Call) :
    TournamentEffect (createsTournament sha256 c.tx.transaction.action c.tx.transaction.signer)
      c.tx.transaction.action c.tx.transaction.signer s (c.next sha256 ex s)
      (c.succeeds sha256 ex s) := by
  refine Call.effect (F := tournamentFamilies) (by simp [feeFamilies, tournamentFamilies])
    (by simp [tournamentFamilies]) (R := fun b s t => TournamentEffect _ _ _ s t b)
    (.kept (fun h => by cases h) (.refl _ s)) (fun hs h ht => h.congr hs ht) fun s₁ _ => ?_
  exact tournamentEffect_dispatchAction sha256 ex c.tx.transaction.action
    c.tx.transaction.signer c.tx.transaction.timestamp c.height s₁

/-! ## The entries add up -/

/-- The pool of a tournament holds an entry fee of every participant, and the participants are
distinct, no more than there is room for, and those that are marked. -/
structure Balanced (x : Tournament) (marks : Address → Bool) : Prop where
  pool : x.prizePool.toNat = x.entryFee.toNat * x.participants.length
  nodup : x.participants.Nodup
  room : x.participants.length ≤ x.maxParticipants.toNat
  index : ∀ a, a ∈ x.participants ↔ marks a = true

/-- The tournaments that are not cancelled are balanced, and nobody is marked for a tournament
that does not exist. -/
structure Entries (s : StateStore) : Prop where
  balanced : ∀ id x, tournamentOf s id = some x → x.status ≠ .cancelled →
    Balanced x (entered s id)
  unmarked : ∀ id, tournamentOf s id = none → ∀ a, entered s id a = false

/-- The entry fee fits the pool. -/
def PoolFits (action : TransactionAction) (s : StateStore) : Prop :=
  ∀ id x, action = .joinTournament id → tournamentOf s id = some x →
    x.prizePool.toNat + x.entryFee.toNat < 2 ^ 64

section Entries

variable {new : Hash → Prop} {action : TransactionAction} {signer : Address} {x : Tournament}
  {marked : Option Address}

theorem Entries.same (h : Entries s) (hSame : SameOn tournamentFamilies s t) : Entries t := by
  have hMarks : ∀ id, entered t id = entered s id :=
    fun id => funext (entered_of_sameOn hSame id)
  refine ⟨fun id x hx hStatus => ?_, fun id hNone => ?_⟩
  · rw [tournamentOf_of_sameOn hSame] at hx
    rw [hMarks]
    exact h.balanced id x hx hStatus
  · rw [tournamentOf_of_sameOn hSame] at hNone
    rw [hMarks]
    exact h.unmarked id hNone

theorem Entries.write (h : Entries s) (hWrite : TournamentWrite x marked s t)
    (hx : x.status ≠ .cancelled → Balanced x (entered t x.tournamentId)) : Entries t := by
  have hOther : ∀ i, i ≠ x.tournamentId → entered t i = entered s i := by
    intro i hNe
    funext a
    rw [hWrite.marks, if_neg fun hBoth => hNe hBoth.1]
  refine ⟨fun i y hy hStatus => ?_, fun i hNone => ?_⟩
  · rw [hWrite.records] at hy
    split at hy
    · rename_i hEq
      obtain rfl := Option.some.inj hy
      rw [hEq]
      exact hx hStatus
    · rename_i hNe
      rw [hOther i hNe]
      exact h.balanced i y hy hStatus
  · rw [hWrite.records] at hNone
    split at hNone
    · cases hNone
    · rename_i hNe
      rw [hOther i hNe]
      exact h.unmarked i hNone

theorem Balanced.join {marks marks' : Address → Bool} (h : Balanced x marks)
    (hOut : marks signer = false) (hRoom : x.participants.length < x.maxParticipants.toNat)
    (hFits : x.prizePool.toNat + x.entryFee.toNat < 2 ^ 64)
    (hMarks : ∀ a, marks' a = if signer = a then true else marks a) :
    Balanced { x with
      prizePool := x.prizePool + x.entryFee
      participants := x.participants ++ [signer] } marks' := by
  have hNew : signer ∉ x.participants := by
    rw [h.index, hOut]
    exact Bool.false_ne_true
  refine ⟨?_, ?_, ?_, fun a => ?_⟩
  · show (x.prizePool + x.entryFee).toNat = x.entryFee.toNat * (x.participants ++ [signer]).length
    rw [UInt64.toNat_add, Nat.mod_eq_of_lt hFits, h.pool, List.length_append,
      List.length_singleton, Nat.mul_add, Nat.mul_one]
  · exact h.nodup.append (List.nodup_singleton signer) (List.disjoint_singleton.mpr hNew)
  · show (x.participants ++ [signer]).length ≤ x.maxParticipants.toNat
    rw [List.length_append, List.length_singleton]
    omega
  · show a ∈ x.participants ++ [signer] ↔ _
    rw [List.mem_append, List.mem_singleton, hMarks, h.index]
    by_cases hEq : signer = a
    · simp [hEq]
    · simp [hEq, Ne.symm hEq]

theorem Entries.change (h : Entries s) (hChange : TournamentChange new signer s action x marked)
    (hWrite : TournamentWrite x marked s t) (hFresh : ∀ id, new id → tournamentOf s id = none)
    (hFits : PoolFits action s) : Entries t := by
  refine h.write hWrite fun hStatus => ?_
  -- Where nobody joins, the marks are the same.
  have hSame : marked = none → entered t x.tournamentId = entered s x.tournamentId := by
    intro hNone
    funext a
    rw [hWrite.marks, hNone, if_neg (by simp)]
  cases hChange with
  | create name gameId fee maxP minP start prizes _ hNew hPool hNobody =>
      have hUnmarked := h.unmarked _ (hFresh _ hNew)
      rw [hSame rfl]
      refine ⟨?_, ?_, ?_, fun a => ?_⟩
      · rw [hPool, hNobody]
        rfl
      · rw [hNobody]
        exact List.nodup_nil
      · rw [hNobody]
        exact Nat.zero_le _
      · rw [hNobody, hUnmarked]
        simp
  | join x hOld hOpen hOut hRoom =>
      have hBalanced := h.balanced _ x hOld (by rw [hOpen]; exact TournamentStatus.noConfusion)
      refine hBalanced.join hOut hRoom (hFits _ x rfl hOld) fun a => ?_
      rw [hWrite.marks]
      simp only [true_and, Option.some.injEq]
  | start x hOld hOpen | report x _ _ hOld hOpen | claim x _ _ hOld hOpen =>
      rw [hSame rfl]
      obtain ⟨hPool, hNodup, hRoom, hIndex⟩ :=
        h.balanced _ x hOld (by rw [hOpen]; exact TournamentStatus.noConfusion)
      exact ⟨hPool, hNodup, hRoom, hIndex⟩
  | cancel x hOld hOpen => exact absurd rfl hStatus

theorem Entries.effect (h : Entries s) {b : Bool}
    (hEffect : TournamentEffect new action signer s t b)
    (hFresh : ∀ id, b = true → new id → tournamentOf s id = none)
    (hNew : ∀ id, new id → ∀ i, action ≠ .reportTournamentResults i [])
    (hFits : b = true → PoolFits action s) : Entries t := by
  cases hEffect with
  | kept _ hSame => exact h.same hSame
  | changed hFailed hChange hWrite =>
      cases b with
      | true => exact h.change hChange hWrite (fun id => hFresh id rfl) (hFits rfl)
      | false =>
          obtain ⟨id, hReport⟩ := hFailed rfl
          refine h.change hChange hWrite (fun i hi => absurd hReport (hNew i hi id)) ?_
          intro i y hJoin
          cases hReport.symm.trans hJoin

end Entries

section Runs

variable (sha256 ex)

/-- A tournament is created only under an identifier no tournament has. -/
def FreshTournament (s : StateStore) (c : Call) : Prop :=
  ∀ id, c.succeeds sha256 ex s = true →
    createsTournament sha256 c.tx.transaction.action c.tx.transaction.signer id →
      tournamentOf s id = none

/-- The store has no record of a tournament. -/
def NoTournaments (s : StateStore) : Prop :=
  ∀ k, familyOf k ∈ tournamentFamilies → s.get? k = none

variable {sha256 ex}

theorem NoTournaments.tournamentOf (h : NoTournaments s) (id : Hash) :
    tournamentOf s id = none := by
  rw [Execution.tournamentOf, h (.tournament id) (by simp [familyOf, tournamentFamilies])]
  rfl

theorem NoTournaments.entries (h : NoTournaments s) : Entries s := by
  refine ⟨fun id x hx => ?_, fun id _ a => ?_⟩
  · rw [h.tournamentOf] at hx
    cases hx
  · rw [entered, h (.tournamentParticipant id a) (by simp [familyOf, tournamentFamilies])]
    rfl

theorem Entries.call (h : Entries s) {c : Call} (hFresh : FreshTournament sha256 ex s c)
    (hFits : c.succeeds sha256 ex s = true → PoolFits c.tx.transaction.action s) :
    Entries (c.next sha256 ex s) := by
  refine h.effect (tournamentEffect_call s c) hFresh ?_ hFits
  rintro id ⟨name, gameId, fee, maxP, minP, start, prizes, hCreate, -⟩ i hReport
  cases hCreate.symm.trans hReport

/-- A successful cancellation refunds every entry in the list. -/
theorem balanceOf_cancel {c : Call} {id : Hash} {x : Tournament}
    (hAction : c.tx.transaction.action = .cancelTournament id)
    (hx : tournamentOf s id = some x) (hOk : c.succeeds sha256 ex s = true) (p : Address) :
    balanceOf (c.next sha256 ex s) p =
      (balanceOf (c.charged ex s) p + x.participants.count p * x.entryFee.toNat) % 2 ^ 64 ∧
      x.status = .registration := by
  have hWp : (ex.action sha256 c.tx c.height).Wp
      (fun o t => CancelEnd id (c.charged ex s) o.toOption.isSome t) (c.charged ex s) := by
    unfold Executor.action
    rw [hAction]
    exact Prog.wp_isSome_bind_pure.mpr (cancelTournament_wp (c.charged ex s) id)
  obtain ⟨t, ⟨y, hy, hStatus, rfl⟩, hSame⟩ := Call.ends hOk hWp
  have hPaid : SameOn tournamentFamilies s (c.charged ex s) :=
    Call.sameOn_charged hOk (by simp [feeFamilies, tournamentFamilies])
  rw [tournamentOf_of_sameOn hPaid, hx] at hy
  obtain rfl := Option.some.inj hy
  refine ⟨?_, hStatus⟩
  rw [balanceOf_of_sameOn (hSame [.account] (by simp)) (by simp), ← balanceOf_refundedAll]
  exact balanceOf_of_sameOn (F := [.account]) (sameOn_insert (by simp [familyOf]) _ _) (by simp) p

/-- Over a run that begins without tournaments, gives no identifier of a tournament twice and
whose entry fees fit the pools, every tournament that is not cancelled is balanced, and a
successful cancellation adds exactly one entry fee to the balance of every participant and
nothing to other balances. -/
theorem entries_add_up {l : List Call} (hStart : NoTournaments s)
    (hFresh : Along (Call.next sha256 ex) (FreshTournament sha256 ex) s l)
    (hFits : Along (Call.next sha256 ex)
      (fun s c => c.succeeds sha256 ex s = true → PoolFits c.tx.transaction.action s) s l) :
    Entries (after (Call.next sha256 ex) s l) ∧
      ∀ (c : Call) (id : Hash) (x : Tournament),
        c.tx.transaction.action = .cancelTournament id →
        tournamentOf (after (Call.next sha256 ex) s l) id = some x →
        c.succeeds sha256 ex (after (Call.next sha256 ex) s l) = true → ∀ p,
        balanceOf (c.charged ex (after (Call.next sha256 ex) s l)) p + x.entryFee.toNat < 2 ^ 64 →
        balanceOf (c.next sha256 ex (after (Call.next sha256 ex) s l)) p =
          balanceOf (c.charged ex (after (Call.next sha256 ex) s l)) p +
            if p ∈ x.participants then x.entryFee.toNat else 0 := by
  have hEntries : Entries (after (Call.next sha256 ex) s l) :=
    (hFresh.and hFits).rule (fun _ _ h hBoth => h.call hBoth.1 hBoth.2) hStart.entries
  refine ⟨hEntries, fun c id x hAction hx hOk p hRoom => ?_⟩
  obtain ⟨hBalance, hStatus⟩ := balanceOf_cancel hAction hx hOk p
  have hOpen : x.status ≠ .cancelled := by
    rw [hStatus]
    exact TournamentStatus.noConfusion
  rw [hBalance, (hEntries.balanced id x hx hOpen).nodup.count]
  split
  · rw [Nat.one_mul, Nat.mod_eq_of_lt hRoom]
  · rw [Nat.zero_mul, Nat.add_zero, Nat.mod_eq_of_lt (balanceOf_lt _ p)]

/-- The trader creates a tournament with an entry fee of 10. -/
def cupCall (prizes : List UInt32) : Call :=
  traderCall 0 (.createTournament "cup" "game" 10 4 1 1 prizes)

theorem noTournaments_traderStore : NoTournaments traderStore := by
  intro k hk
  refine get?_traderStore fun a hEq => ?_
  rw [hEq] at hk
  simp [familyOf, tournamentFamilies] at hk

/-- The trader joins its own tournament. -/
def entryRun : List Call := [cupCall [100], traderCall 1 (.joinTournament Hash.zero)]

theorem entries_add_up_joined :
    Entries (after sampleCall traderStore entryRun) ∧
      (traderCall 2 (.cancelTournament Hash.zero)).succeeds (fun _ => Hash.zero) Executor.devnet
        (after sampleCall traderStore entryRun) = true := by
  have hFresh : Along sampleCall (FreshTournament (fun _ => Hash.zero) Executor.devnet)
      traderStore entryRun := by
    refine ⟨fun id _ _ => noTournaments_traderStore.tournamentOf id, ?_, trivial⟩
    rintro id - ⟨_, _, _, _, _, _, _, hEq, -⟩
    cases hEq
  refine ⟨(entries_add_up noTournaments_traderStore hFresh ⟨?_, ?_, trivial⟩).1,
    by decide +kernel⟩
  · intro _ _ _ hEq
    cases hEq
  · intro _ id x hEq hx
    injection hEq with hId
    subst hId
    have hRecord : (tournamentOf (sampleCall traderStore (cupCall [100])) Hash.zero).map
        (fun x => (x.prizePool, x.entryFee)) = some (0, 10) := by decide +kernel
    rw [show tournamentOf (sampleCall _ _) _ = some x from hx] at hRecord
    have hPair : (x.prizePool, x.entryFee) = (0, 10) := Option.some.inj hRecord
    rw [(Prod.mk.inj hPair).1, (Prod.mk.inj hPair).2]
    decide

end Runs

/-! ## The prizes -/

/-- What of the pool is paid out, by the claims that are marked. -/
def claimedOf (pool : Nat) : List Bool → List UInt32 → Nat
  | claimed :: rest, share :: shares =>
      (if claimed then pool * share.toNat / 100 else 0) + claimedOf pool rest shares
  | _, _ => 0

/-- What of the pool is left. -/
def remaining (x : Tournament) : Nat :=
  x.prizePool.toNat - claimedOf x.prizePool.toNat x.prizesClaimed x.prizeDistribution

/-- The shares are percentages of the whole, and nothing is claimed before the results. -/
structure Fair (x : Tournament) : Prop where
  shares : (x.prizeDistribution.map UInt32.toNat).sum ≤ 100
  unclaimed : x.status ≠ .completed → x.prizesClaimed = []

section Prizes

theorem claimedOf_nil (pool : Nat) (shares : List UInt32) : claimedOf pool [] shares = 0 := by
  cases shares <;> rfl

theorem claimedOf_replicate (pool n : Nat) (shares : List UInt32) :
    claimedOf pool (List.replicate n false) shares = 0 := by
  induction n generalizing shares with
  | zero => exact claimedOf_nil pool shares
  | succ n ih =>
      cases shares with
      | nil => rfl
      | cons share shares => exact (Nat.zero_add _).trans (ih shares)

theorem claimedOf_le (pool : Nat) (claimed : List Bool) (shares : List UInt32) :
    claimedOf pool claimed shares ≤ (shares.map fun share => pool * share.toNat / 100).sum := by
  induction claimed generalizing shares with
  | nil =>
      rw [claimedOf_nil]
      exact Nat.zero_le _
  | cons claim claimed ih =>
      cases shares with
      | nil => exact Nat.zero_le _
      | cons share shares =>
          have hRest := ih shares
          rw [List.map_cons, List.sum_cons]
          show (if claim then pool * share.toNat / 100 else 0) + claimedOf pool claimed shares ≤ _
          split <;> omega

/-- Marking an open claim. -/
theorem claimedOf_set {pool : Nat} {claimed : List Bool} {shares : List UInt32} {i : Nat}
    {share : UInt32} (hOpen : claimed[i]? = some false) (hShare : shares[i]? = some share) :
    claimedOf pool (claimed.set i true) shares =
      claimedOf pool claimed shares + pool * share.toNat / 100 := by
  induction claimed generalizing shares i with
  | nil => cases hOpen
  | cons claim claimed ih =>
      cases shares with
      | nil => cases hShare
      | cons first shares =>
          cases i with
          | zero =>
              obtain rfl := Option.some.inj hOpen
              obtain rfl := Option.some.inj hShare
              show pool * first.toNat / 100 + claimedOf pool claimed shares =
                0 + claimedOf pool claimed shares + pool * first.toNat / 100
              omega
          | succ i =>
              have hRest : claimedOf pool (claimed.set i true) shares =
                  claimedOf pool claimed shares + pool * share.toNat / 100 := ih hOpen hShare
              show _ + claimedOf pool (claimed.set i true) shares =
                _ + claimedOf pool claimed shares + _
              rw [hRest, Nat.add_assoc]

theorem Fair.claimed_le {x : Tournament} (h : Fair x) (claimed : List Bool) :
    claimedOf x.prizePool.toNat claimed x.prizeDistribution ≤ x.prizePool.toNat :=
  (claimedOf_le _ _ _).trans (sum_mul_div_le h.shares x.prizePool.toNat)

variable {new : Hash → Prop} {action : TransactionAction} {signer : Address} {x : Tournament}
  {marked : Option Address}

variable {id : Hash}

/-- The shares of a new tournament are percentages of the whole, and the product that gives a
prize fits into 64 bits. -/
structure SharesFit (action : TransactionAction) (signer : Address) (s : StateStore) : Prop where
  whole : ∀ name gameId fee maxP minP start prizes,
    action = .createTournament name gameId fee maxP minP start prizes →
      (prizes.map UInt32.toNat).sum ≤ 100
  product : ∀ id x i share, action = .claimTournamentPrize id → tournamentOf s id = some x →
    Tournaments.rankOf x.rankings signer = some i → x.prizeDistribution[i]? = some share →
      x.prizePool.toNat * share.toNat < 2 ^ 64

/-- A prize whose product fits is the share of the pool, rounded down. -/
theorem toNat_prizeOf {i : Nat} {share : UInt32}
    (hRank : Tournaments.rankOf x.rankings signer = some i)
    (hShare : x.prizeDistribution[i]? = some share)
    (hFits : x.prizePool.toNat * share.toNat < 2 ^ 64) :
    (prizeOf x signer).toNat = x.prizePool.toNat * share.toNat / 100 := by
  have hPrize : prizeOf x signer = x.prizePool * share.toUInt64 / 100 := by
    rw [prizeOf, hRank]
    dsimp only
    rw [hShare]
    rfl
  rw [hPrize, UInt64.toNat_div, UInt64.toNat_mul, UInt32.toNat_toUInt64, Nat.mod_eq_of_lt hFits]
  rfl

/-- What an action adds to the pool of a tournament. -/
def feeTo (id : Hash) (action : TransactionAction) (s : StateStore) : Nat :=
  match action with
  | .joinTournament i =>
      if i = id then ((tournamentOf s id).map fun x => x.entryFee.toNat).getD 0 else 0
  | _ => 0

/-- The prize an action claims from a tournament. -/
def prizeFrom (id : Hash) (action : TransactionAction) (signer : Address) (s : StateStore) : Nat :=
  match action with
  | .claimTournamentPrize i =>
      if i = id then ((tournamentOf s id).map fun x => (prizeOf x signer).toNat).getD 0 else 0
  | _ => 0

/-- What is left of the pool of a tournament, nothing if there is no tournament. -/
def remainingAt (s : StateStore) (id : Hash) : Nat :=
  ((tournamentOf s id).map remaining).getD 0

theorem remainingAt_of_some (h : tournamentOf s id = some x) :
    remainingAt s id = remaining x := by
  rw [remainingAt, h]
  rfl

theorem prizeFrom_of_not_tournamentAction (h : tournamentAction action = false) :
    prizeFrom id action signer s = 0 := by
  cases action <;> first | rfl | cases h

/-- Changes keep tournaments fair. -/
theorem TournamentChange.fair (hChange : TournamentChange new signer s action x marked)
    (hShares : ∀ name gameId fee maxP minP start prizes,
      action = .createTournament name gameId fee maxP minP start prizes →
        (prizes.map UInt32.toNat).sum ≤ 100)
    (hFair : ∀ id y, tournamentOf s id = some y → Fair y) : Fair x := by
  cases hChange with
  | create name gameId fee maxP minP start prizes _ hNew hPool hNobody hStatus hPrizes hClaimed =>
      refine ⟨?_, fun _ => hClaimed⟩
      rw [hPrizes]
      exact hShares name gameId fee maxP minP start prizes rfl
  | join x hOld hStatus => exact ⟨(hFair _ x hOld).shares, (hFair _ x hOld).unclaimed⟩
  | start x hOld hStatus | cancel x hOld hStatus =>
      refine ⟨(hFair _ x hOld).shares, fun _ => (hFair _ x hOld).unclaimed ?_⟩
      rw [hStatus]
      exact TournamentStatus.noConfusion
  | report x rankings height hOld hStatus =>
      exact ⟨(hFair _ x hOld).shares, fun hNot => absurd rfl hNot⟩
  | claim x i share hOld hStatus =>
      exact ⟨(hFair _ x hOld).shares, fun hNot => absurd hStatus hNot⟩

/-- A tournament that is not completed has its whole pool. -/
theorem Fair.remaining_eq (h : Fair x) (hStatus : x.status ≠ .completed) :
    remaining x = x.prizePool.toNat := by
  rw [remaining, h.unclaimed hStatus, claimedOf_nil, Nat.sub_zero]

/-- What a change pays is taken from the pool, and only fees are added to it. -/
theorem TournamentChange.remaining_le (hChange : TournamentChange new signer s action x marked)
    (hFits : SharesFit action signer s) (hFair : ∀ id y, tournamentOf s id = some y → Fair y) :
    remaining x + prizeFrom x.tournamentId action signer s ≤
      remainingAt s x.tournamentId + feeTo x.tournamentId action s := by
  have hNew := hChange.fair hFits.whole hFair
  cases hChange with
  | create name gameId fee maxP minP start prizes _ _ hPool =>
      have hNothing : remaining x = 0 := by
        rw [remaining, hPool, UInt64.toNat_zero, Nat.zero_sub]
      rw [hNothing]
      exact Nat.zero_le _
  | join x hOld hStatus =>
      have hOpen : x.status ≠ .completed := by rw [hStatus]; exact TournamentStatus.noConfusion
      rw [remainingAt_of_some hOld, (hFair _ x hOld).remaining_eq hOpen, hNew.remaining_eq hOpen]
      have hFee : feeTo x.tournamentId (.joinTournament x.tournamentId) s = x.entryFee.toNat := by
        rw [feeTo, if_pos rfl, hOld]
        rfl
      have hPool : (x.prizePool + x.entryFee).toNat ≤ x.prizePool.toNat + x.entryFee.toNat := by
        rw [UInt64.toNat_add]
        exact Nat.mod_le _ _
      show (x.prizePool + x.entryFee).toNat + 0 ≤ _
      rw [show feeTo _ _ _ = _ from hFee]
      exact hPool
  | start x hOld hStatus =>
      show remaining x + 0 ≤ _
      rw [remainingAt_of_some hOld]
      exact Nat.le_add_right _ _
  | report x rankings height hOld hStatus =>
      have hOpen : x.status ≠ .completed := by rw [hStatus]; exact TournamentStatus.noConfusion
      rw [remainingAt_of_some hOld, (hFair _ x hOld).remaining_eq hOpen]
      show x.prizePool.toNat - claimedOf _ (List.replicate rankings.length false) _ + 0 ≤ _
      rw [claimedOf_replicate]
      exact Nat.le_add_right _ _
  | claim x i share hOld hStatus hRank hOpen hShare =>
      have hPrize : prizeFrom x.tournamentId (.claimTournamentPrize x.tournamentId) signer s =
          x.prizePool.toNat * share.toNat / 100 := by
        rw [prizeFrom, if_pos rfl, hOld]
        exact toNat_prizeOf hRank hShare (hFits.product _ x i share rfl hOld hRank hShare)
      have hAfter := (hFair _ x hOld).claimed_le (x.prizesClaimed.set i true)
      rw [claimedOf_set hOpen hShare] at hAfter
      rw [remainingAt_of_some hOld]
      show x.prizePool.toNat -
          claimedOf x.prizePool.toNat (x.prizesClaimed.set i true) x.prizeDistribution +
          prizeFrom x.tournamentId (.claimTournamentPrize x.tournamentId) signer s ≤
        x.prizePool.toNat - claimedOf x.prizePool.toNat x.prizesClaimed x.prizeDistribution + 0
      rw [hPrize, claimedOf_set hOpen hShare]
      omega
  | cancel x hOld hStatus =>
      show (0 : UInt64).toNat - _ + 0 ≤ _
      rw [UInt64.toNat_zero, Nat.zero_sub]
      exact Nat.zero_le _

/-- A claim concerns one tournament. -/
theorem TournamentChange.prizeFrom_ne (hChange : TournamentChange new signer s action x marked)
    (hNe : id ≠ x.tournamentId) : prizeFrom id action signer s = 0 := by
  cases hChange with
  | create => rfl
  | join => rfl
  | start => rfl
  | report => rfl
  | claim x => exact if_neg (Ne.symm hNe)
  | cancel => rfl

/-- An action that neither creates a tournament nor claims a prize. -/
theorem sharesFit_of_ne
    (hCreate : ∀ name gameId fee maxP minP start prizes,
      action ≠ .createTournament name gameId fee maxP minP start prizes)
    (hClaim : ∀ id, action ≠ .claimTournamentPrize id) : SharesFit action signer s :=
  ⟨fun _ _ _ _ _ _ _ hEq => absurd hEq (hCreate _ _ _ _ _ _ _),
    fun id _ _ _ hEq => absurd hEq (hClaim id)⟩

theorem sharesFit_report {rankings : List Address} :
    SharesFit (.reportTournamentResults id rankings) signer s :=
  sharesFit_of_ne (fun _ _ _ _ _ _ _ => TransactionAction.noConfusion)
    fun _ => TransactionAction.noConfusion

section Effect

variable {b : Bool} (hEffect : TournamentEffect new action signer s t b)
  (hFits : b = true → SharesFit action signer s)
  (hFair : ∀ id y, tournamentOf s id = some y → Fair y)

include hEffect hFits hFair

theorem TournamentEffect.fair : ∀ id y, tournamentOf t id = some y → Fair y := by
  intro id y hy
  cases hEffect with
  | kept _ hSame =>
      rw [tournamentOf_of_sameOn hSame] at hy
      exact hFair id y hy
  | changed hFailed hChange hWrite =>
      have hShares : SharesFit action signer s := by
        cases b with
        | true => exact hFits rfl
        | false =>
            obtain ⟨i, rfl⟩ := hFailed rfl
            exact sharesFit_report
      rw [hWrite.records] at hy
      split at hy
      · obtain rfl := Option.some.inj hy
        exact hChange.fair hShares.whole hFair
      · exact hFair id y hy

theorem TournamentEffect.remaining_le (id : Hash) :
    remainingAt t id + (if b then prizeFrom id action signer s else 0) ≤
      remainingAt s id + (if b then feeTo id action s else 0) := by
  cases hEffect with
  | kept hKept hSame =>
      rw [remainingAt, tournamentOf_of_sameOn hSame, ← remainingAt]
      cases b with
      | false => exact Nat.le_refl _
      | true =>
          rw [prizeFrom_of_not_tournamentAction (hKept rfl)]
          exact Nat.le_add_right _ _
  | changed hFailed hChange hWrite =>
      rename_i x marked
      by_cases hEq : id = x.tournamentId
      · subst hEq
        rw [remainingAt, hWrite.records, if_pos rfl]
        cases b with
        | true => exact hChange.remaining_le (hFits rfl) hFair
        | false =>
            obtain ⟨i, rfl⟩ := hFailed rfl
            exact hChange.remaining_le sharesFit_report hFair
      · rw [remainingAt, hWrite.records, if_neg hEq, ← remainingAt, hChange.prizeFrom_ne hEq]
        rw [ite_self]
        exact Nat.le_add_right _ _

end Effect

end Prizes

section PrizeRuns

variable (sha256 ex)

/-- The entry fee a call pays into the pool of a tournament. -/
def feeCollected (id : Hash) (s : StateStore) (c : Call) : Nat :=
  if c.succeeds sha256 ex s then feeTo id c.tx.transaction.action s else 0

/-- The prize a call is paid from a tournament. -/
def prizePaid (id : Hash) (s : StateStore) (c : Call) : Nat :=
  if c.succeeds sha256 ex s then
    prizeFrom id c.tx.transaction.action c.tx.transaction.signer s
  else 0

/-- The prize of a call is the share of the pool, rounded down, and this is what its signer
receives. -/
def PrizeExact (s : StateStore) (c : Call) : Prop :=
  ∀ id, c.tx.transaction.action = .claimTournamentPrize id → c.succeeds sha256 ex s = true →
    ∃ x i share, tournamentOf s id = some x ∧
      Tournaments.rankOf x.rankings c.tx.transaction.signer = some i ∧
      x.prizeDistribution[i]? = some share ∧
      prizePaid sha256 ex id s c = x.prizePool.toNat * share.toNat / 100 ∧
      balanceOf (c.next sha256 ex s) c.tx.transaction.signer =
        (balanceOf (c.charged ex s) c.tx.transaction.signer +
          x.prizePool.toNat * share.toNat / 100) % 2 ^ 64

variable {sha256 ex}

theorem prizeExact_of_sharesFit {c : Call}
    (hFits : c.succeeds sha256 ex s = true →
      SharesFit c.tx.transaction.action c.tx.transaction.signer s) :
    PrizeExact sha256 ex s c := by
  intro id hAction hOk
  have hWp : (ex.action sha256 c.tx c.height).Wp
      (fun o t => ClaimEnd c.tx.signer id (c.charged ex s) o.toOption.isSome t)
      (c.charged ex s) := by
    unfold Executor.action
    rw [hAction]
    exact Prog.wp_isSome_bind_pure.mpr (claimTournamentPrize_wp (c.charged ex s) id)
  obtain ⟨t, ⟨x, i, share, hx, -, hRank, -, hShare, rfl⟩, hSame⟩ := Call.ends hOk hWp
  have hPaid : SameOn tournamentFamilies s (c.charged ex s) :=
    Call.sameOn_charged hOk (by simp [feeFamilies, tournamentFamilies])
  rw [tournamentOf_of_sameOn hPaid] at hx
  have hPrize := toNat_prizeOf hRank hShare
    ((hFits hOk).product id x i share hAction hx hRank hShare)
  refine ⟨x, i, share, hx, hRank, hShare, ?_, ?_⟩
  · rw [prizePaid, if_pos hOk, hAction, prizeFrom, if_pos rfl, hx]
    exact hPrize
  · rw [balanceOf_of_sameOn (hSame [.account] (by simp)) (by simp), ← hPrize]
    have hRecord : SameOn [.account]
        (refunded (prizeOf x c.tx.signer) (c.charged ex s) c.tx.signer)
        (withTournament (refunded (prizeOf x c.tx.signer) (c.charged ex s) c.tx.signer)
          { x with prizesClaimed := x.prizesClaimed.set i true }) :=
      sameOn_insert (by simp [familyOf]) _ _
    rw [balanceOf_of_sameOn hRecord (by simp)]
    exact (balanceOf_refunded _ _ _ _).trans (if_pos rfl)

/-- Over a run that begins without tournaments, the prizes paid from a tournament are at most
the entry fees it collected, and every prize is the share of the pool, rounded down, if the
shares of every tournament are at most 100 together and no product of a pool and a share exceeds
64 bits. -/
theorem prizes_within_fees {l : List Call} (hStart : NoTournaments s)
    (hFits : Along (Call.next sha256 ex) (fun s c => c.succeeds sha256 ex s = true →
      SharesFit c.tx.transaction.action c.tx.transaction.signer s) s l) :
    (∀ id, sumOver (Call.next sha256 ex) (prizePaid sha256 ex id) s l ≤
        sumOver (Call.next sha256 ex) (feeCollected sha256 ex id) s l) ∧
      Along (Call.next sha256 ex) (PrizeExact sha256 ex) s l := by
  refine ⟨fun id => ?_, hFits.mono fun _ _ h => prizeExact_of_sharesFit h⟩
  have hAccounts := hFits.accounts_le
    (I := fun s => ∀ id y, tournamentOf s id = some y → Fair y)
    (m := fun s => remainingAt s id) (f := prizePaid sha256 ex id)
    (g := feeCollected sha256 ex id)
    (fun s c hFair h => (tournamentEffect_call s c).fair h hFair)
    (fun s c hFair h => (tournamentEffect_call s c).remaining_le h hFair id)
    (fun i y hy => by rw [hStart.tournamentOf] at hy; cases hy)
  have hNothing : remainingAt s id = 0 := by
    rw [remainingAt, hStart.tournamentOf]
    rfl
  rw [hNothing, Nat.zero_add] at hAccounts
  exact (Nat.le_add_left _ _).trans hAccounts

/-- The trader enters its own tournament, starts it, wins it and claims the prize. -/
def prizeRun (prizes : List UInt32) : List Call :=
  [cupCall prizes, traderCall 1 (.joinTournament Hash.zero),
    traderCall 2 (.startTournament Hash.zero),
    traderCall 3 (.reportTournamentResults Hash.zero [Address.ofByte 1]),
    traderCall 4 (.claimTournamentPrize Hash.zero)]

theorem prizes_within_fees_winner :
    sumOver sampleCall (prizePaid (fun _ => Hash.zero) Executor.devnet Hash.zero) traderStore
        (prizeRun [100]) ≤
      sumOver sampleCall (feeCollected (fun _ => Hash.zero) Executor.devnet Hash.zero) traderStore
        (prizeRun [100]) ∧
      sumOver sampleCall (prizePaid (fun _ => Hash.zero) Executor.devnet Hash.zero) traderStore
        (prizeRun [100]) = 10 := by
  have hFits : Along sampleCall (fun s c =>
      c.succeeds (fun _ => Hash.zero) Executor.devnet s = true →
        SharesFit c.tx.transaction.action c.tx.transaction.signer s) traderStore
      (prizeRun [100]) := ⟨?_, ?_, ?_, ?_, ?_, trivial⟩
  · exact ⟨(prizes_within_fees noTournaments_traderStore hFits).1 _, by decide +kernel⟩
  · intro _
    refine ⟨fun _ _ _ _ _ _ prizes hEq => ?_, fun _ _ _ _ hEq => ?_⟩
    · injection hEq with _ _ _ _ _ _ hPrizes
      rw [← hPrizes]
      decide
    · cases hEq
  · exact fun _ => sharesFit_of_ne (fun _ _ _ _ _ _ _ => TransactionAction.noConfusion)
      fun _ => TransactionAction.noConfusion
  · exact fun _ => sharesFit_of_ne (fun _ _ _ _ _ _ _ => TransactionAction.noConfusion)
      fun _ => TransactionAction.noConfusion
  · exact fun _ => sharesFit_report
  · intro _
    refine ⟨fun _ _ _ _ _ _ _ => TransactionAction.noConfusion,
      fun id x i share hEq hx _ hShare => ?_⟩
    injection hEq with hId
    subst hId
    have hRecord : (tournamentOf (after sampleCall traderStore ((prizeRun [100]).take 4))
        Hash.zero).map (fun x => (x.prizePool, x.prizeDistribution)) = some (10, [100]) := by
      decide +kernel
    have hx' : tournamentOf (after sampleCall traderStore ((prizeRun [100]).take 4)) Hash.zero =
        some x := hx
    rw [hx'] at hRecord
    have hPair : (x.prizePool, x.prizeDistribution) = (10, [100]) := Option.some.inj hRecord
    rw [(Prod.mk.inj hPair).2] at hShare
    obtain rfl : share = 100 := List.mem_singleton.mp (List.mem_of_getElem? hShare)
    rw [(Prod.mk.inj hPair).1]
    decide

theorem prize_exceeds_fees :
    sumOver sampleCall (feeCollected (fun _ => Hash.zero) Executor.devnet Hash.zero) traderStore
        (prizeRun [200]) = 10 ∧
      sumOver sampleCall (prizePaid (fun _ => Hash.zero) Executor.devnet Hash.zero) traderStore
        (prizeRun [200]) = 20 ∧
      balanceOf (after sampleCall traderStore (prizeRun [200])) (Address.ofByte 1) =
        balanceOf ((traderCall 4 (.claimTournamentPrize Hash.zero)).charged Executor.devnet
          (after sampleCall traderStore ((prizeRun [200]).take 4))) (Address.ofByte 1) + 20 := by
  decide +kernel

end PrizeRuns

end Polay.Execution
