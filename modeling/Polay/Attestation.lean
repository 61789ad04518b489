import Polay.Crypto.Hash
import Polay.Types.Community

/-!
# Match results: the signed message and the reward split

An attestor signs the hash of the core data of a match. The fields are written
one after the other without lengths: the text of the game and the lists of
players, scores and winners all have a length of their own choice, so the
boundaries between them can shift.

The default split of the reward divides by the length of the list of winners and
pays every entry of the list of players that is one of them. Nothing keeps these
numbers equal: either list may name an address twice.
-/

namespace Polay.Attestation

open Lib Lib.Bytes Lib.Machine Lib.Merkle Polay.Types

variable {result : MatchResult}

/-- The bytes that are hashed for a match result. -/
def canonicalMatchData (result : MatchResult) : List UInt8 :=
  result.matchId.data ++ (Borsh.utf8 result.gameId ++ (leBytes 8 result.timestamp.toNat ++
    ((result.players.flatMap fun player => player.data) ++
      ((result.scores.flatMap fun score => leBytes 8 score.toNat) ++
        result.winners.flatMap fun winner => winner.data))))

/-- The hash that the attestor signs. -/
def canonicalMatchHash (sha256 : List UInt8 → Hash) (result : MatchResult) : Hash :=
  sha256 (canonicalMatchData result)

/-- The results agree on the data the hash is computed from. -/
structure SameMatch (a b : MatchResult) : Prop where
  matchId : a.matchId = b.matchId
  gameId : a.gameId = b.gameId
  timestamp : a.timestamp = b.timestamp
  players : a.players = b.players
  scores : a.scores = b.scores
  winners : a.winners = b.winners

theorem length_scores {a : MatchResult} (h : a.isWellFormed = true) :
    a.scores.length = a.players.length := by
  simp only [MatchResult.isWellFormed, Bool.and_eq_true, decide_eq_true_eq] at h
  exact h.1.1.1.symm

theorem length_flatMap_data (l : List Address) :
    (l.flatMap fun a => a.data).length = 32 * l.length := by
  induction l with
  | nil => rfl
  | cons a rest ih =>
      rw [List.flatMap_cons, List.length_append, a.length_data, ih, List.length_cons]
      omega

theorem length_flatMap_scores (l : List UInt64) :
    (l.flatMap fun score => leBytes 8 score.toNat).length = 8 * l.length := by
  induction l with
  | nil => rfl
  | cons n rest ih =>
      rw [List.flatMap_cons, List.length_append, length_leBytes, ih, List.length_cons]
      omega

/-- With the lengths of the game text and of the list of players, the bytes can be read back. -/
theorem sameMatch_of_data_eq {a b : MatchResult} (ha : a.isWellFormed = true)
    (hb : b.isWellFormed = true)
    (hGame : (Borsh.utf8 a.gameId).length = (Borsh.utf8 b.gameId).length)
    (hPlayers : a.players.length = b.players.length)
    (h : canonicalMatchData a = canonicalMatchData b) : SameMatch a b := by
  have hScores : a.scores.length = b.scores.length := by
    rw [length_scores ha, length_scores hb, hPlayers]
  -- What is left for the winners has the same length.
  have hWinners : a.winners.length = b.winners.length := by
    have hLength := congrArg List.length h
    simp only [canonicalMatchData, List.length_append, length_leBytes, length_flatMap_data,
      length_flatMap_scores, a.matchId.length_data, b.matchId.length_data] at hLength
    omega
  obtain ⟨hId, h⟩ := Borsh.encode_append_inj (a := a.matchId) (b := b.matchId) rfl rfl h
  obtain ⟨hText, h⟩ := List.append_inj h hGame
  obtain ⟨hTime, h⟩ := Borsh.encode_append_inj (a := a.timestamp) (b := b.timestamp) rfl rfl h
  obtain ⟨hPlayers, h⟩ := Borsh.flatMap_encode_append_inj (α := Address) hPlayers
    (fun _ _ => rfl) (fun _ _ => rfl) h
  obtain ⟨hScores, h⟩ := Borsh.flatMap_encode_append_inj (α := UInt64) hScores
    (fun _ _ => rfl) (fun _ _ => rfl) h
  have hWon : a.winners.flatMap Borsh.encode ++ [] = b.winners.flatMap Borsh.encode ++ [] := by
    rw [List.append_nil, List.append_nil]
    exact h
  obtain ⟨hWinners, -⟩ := Borsh.flatMap_encode_append_inj (α := Address) hWinners
    (fun _ _ => rfl) (fun _ _ => rfl) hWon
  exact ⟨hId, Borsh.utf8_inj hText, hTime, hPlayers, hScores, hWinners⟩

/-- Without a collision between the two messages, well-formed results with the same hash are the
same match exactly if the texts of the games have the same number of bytes and there are equally
many players. -/
theorem matchData_binding_iff {sha256 : List UInt8 → Hash} {a b : MatchResult}
    (ha : a.isWellFormed = true) (hb : b.isWellFormed = true)
    (hFree : NoCollision sha256 [canonicalMatchData a, canonicalMatchData b])
    (h : canonicalMatchHash sha256 a = canonicalMatchHash sha256 b) :
    SameMatch a b ↔
      (Borsh.utf8 a.gameId).length = (Borsh.utf8 b.gameId).length ∧
        a.players.length = b.players.length := by
  have hData : canonicalMatchData a = canonicalMatchData b :=
    hFree _ (by simp) _ (by simp) h
  constructor
  · intro hSame
    exact ⟨by rw [hSame.gameId], by rw [hSame.players]⟩
  · rintro ⟨hGame, hPlayers⟩
    exact sameMatch_of_data_eq ha hb hGame hPlayers hData

/-- A result of the zero account, with a number of players that all scored nothing, and a number
of winners. -/
def zeroMatch (players winners : Nat) : MatchResult where
  matchId := Hash.zero
  gameId := "chess"
  timestamp := 0
  players := List.replicate players Address.zero
  scores := List.replicate players 0
  winners := List.replicate winners Address.zero
  rewardPool := 0
  serverSignature := []
  antiCheatScore := none
  replayRef := none

theorem matchData_binding_iff_reward :
    SameMatch (zeroMatch 2 1) { zeroMatch 2 1 with rewardPool := 7 } := by
  have hHash : canonicalMatchHash Crypto.checksum (zeroMatch 2 1) =
      canonicalMatchHash Crypto.checksum { zeroMatch 2 1 with rewardPool := 7 } := by
    decide +kernel
  exact (matchData_binding_iff (by decide +kernel) (by decide +kernel) (by decide +kernel)
    hHash).mpr ⟨rfl, rfl⟩

/-- One player and six winners are hashed like five players and one winner. -/
theorem players_read_as_winners :
    (zeroMatch 1 6).isWellFormed = true ∧ (zeroMatch 5 1).isWellFormed = true ∧
      NoCollision Crypto.checksum
        [canonicalMatchData (zeroMatch 1 6), canonicalMatchData (zeroMatch 5 1)] ∧
      canonicalMatchHash Crypto.checksum (zeroMatch 1 6) =
        canonicalMatchHash Crypto.checksum (zeroMatch 5 1) ∧
      ¬ SameMatch (zeroMatch 1 6) (zeroMatch 5 1) := by
  refine ⟨by decide +kernel, by decide +kernel, by decide +kernel, by decide +kernel, fun h => ?_⟩
  have hLength := congrArg List.length h.players
  revert hLength
  decide

/-! ## The default reward split -/

/-- An equal share of a pool. The length of a list fits in 64 bits. -/
def share (pool : UInt64) (parts : Nat) : UInt64 := UInt64.ofNat (pool.toNat / parts)

/-- The payouts of a match: winners share three fifths of the pool and the other players the
rest. -/
def calculateRewardDistribution (result : MatchResult) : List (Address × UInt64) :=
  if result.players.isEmpty || result.rewardPool = 0 then []
  else if result.winners.isEmpty then
    result.players.map fun p => (p, share result.rewardPool result.players.length)
  else
    let winnerPool := UInt64.ofNat (result.rewardPool.toNat * 60 / 100)
    let loserPool := saturatingSub result.rewardPool winnerPool
    let winnerShare :=
      if !result.winners.isEmpty then share winnerPool result.winners.length else 0
    let losers := result.players.filter fun p => !result.winners.contains p
    let loserShare := if !losers.isEmpty then share loserPool losers.length else 0
    let payouts := result.players.map fun player =>
      if result.winners.contains player then (player, winnerShare) else (player, loserShare)
    if losers.isEmpty && 0 < loserPool && !result.winners.isEmpty then
      let extraPerWinner := share loserPool result.winners.length
      payouts.map fun payout => (payout.1, saturatingAdd payout.2 extraPerWinner)
    else payouts

/-- What a list of payouts adds up to. -/
def paidOut (payouts : List (Address × UInt64)) : Nat := (payouts.map fun p => p.2.toNat).sum

/-- The payouts do not exceed the pool and leave less than one unit per player and winner. -/
def SplitsPool (result : MatchResult) : Prop :=
  let paid := paidOut (calculateRewardDistribution result)
  paid ≤ result.rewardPool.toNat ∧
    result.rewardPool.toNat - paid < result.players.length + result.winners.length

/-- The entries of the list of players that are winners. -/
def won (result : MatchResult) : Nat := result.players.countP fun p => result.winners.contains p

/-- The entries of the list of players that are not. -/
def lost (result : MatchResult) : Nat := result.players.countP fun p => !result.winners.contains p

theorem toNat_share (pool : UInt64) (parts : Nat) :
    (share pool parts).toNat = pool.toNat / parts := by
  have hLt := pool.toNat_lt
  have hLe := Nat.div_le_self pool.toNat parts
  rw [share, UInt64.toNat_ofNat', Nat.mod_eq_of_lt (by omega)]

theorem sum_map_ite {α : Type} (q : α → Bool) (a b : Nat) (l : List α) :
    (l.map fun x => if q x = true then a else b).sum =
      l.countP q * a + l.countP (fun x => !q x) * b := by
  induction l with
  | nil => simp
  | cons x rest ih =>
      rw [List.map_cons, List.sum_cons, ih, List.countP_cons, List.countP_cons]
      by_cases hq : q x = true
      · simp only [hq, if_true, Bool.not_true, Bool.false_eq_true, if_false]
        ring
      · simp only [hq, Bool.not_false, if_true, Bool.false_eq_true, if_false]
        ring

theorem won_add_lost (result : MatchResult) : won result + lost result = result.players.length := by
  have h := List.length_eq_countP_add_countP (fun p => result.winners.contains p)
    (l := result.players)
  simp only [Bool.not_eq_true, Bool.decide_eq_false] at h
  exact h.symm

/-- The two parts of the pool. -/
def parts (result : MatchResult) : Nat × Nat :=
  (result.rewardPool.toNat * 60 / 100,
    result.rewardPool.toNat - result.rewardPool.toNat * 60 / 100)

/-- What every entry of a winner is paid. -/
def winnerPay (result : MatchResult) : Nat :=
  (parts result).1 / result.winners.length +
    if lost result = 0 then (parts result).2 / result.winners.length else 0

/-- What is left over when both parts are divided. -/
def leftOver (result : MatchResult) : Nat :=
  (parts result).1 % result.winners.length +
    (parts result).2 % if lost result = 0 then result.winners.length else lost result

theorem toNat_payouts (h : result.isWellFormed = true) (hPool : result.rewardPool ≠ 0) :
    (calculateRewardDistribution result).map (fun p => p.2.toNat) =
      result.players.map fun p => if result.winners.contains p = true then winnerPay result
        else (parts result).2 / lost result := by
  simp only [MatchResult.isWellFormed, Bool.and_eq_true, Bool.not_eq_true'] at h
  obtain ⟨⟨⟨-, hPlayers⟩, hWinners⟩, -⟩ := h
  have hLt := result.rewardPool.toNat_lt
  have hPos : 0 < result.rewardPool.toNat := Nat.pos_of_ne_zero fun hZero =>
    hPool (UInt64.toNat.inj hZero)
  have hWon : (UInt64.ofNat (result.rewardPool.toNat * 60 / 100)).toNat = (parts result).1 := by
    rw [UInt64.toNat_ofNat', Nat.mod_eq_of_lt (by omega)]
    rfl
  have hRest : (saturatingSub result.rewardPool
      (UInt64.ofNat (result.rewardPool.toNat * 60 / 100))).toNat = (parts result).2 := by
    rw [toNat_saturatingSub, hWon]
    rfl
  have hLost : lost result = (result.players.filter fun p => !result.winners.contains p).length :=
    List.countP_eq_length_filter
  unfold calculateRewardDistribution winnerPay
  rw [if_neg (by simp [hPlayers, hPool]), if_neg (by simp [hWinners])]
  simp only [hWinners, Bool.not_false, if_true, Bool.and_true]
  generalize saturatingSub result.rewardPool _ = loserPool at *
  generalize UInt64.ofNat (result.rewardPool.toNat * 60 / 100) = winnerPool at *
  by_cases hNone : lost result = 0
  · -- Without losers their part goes to the winners, too.
    have hEmpty := List.eq_nil_of_length_eq_zero (hLost.symm.trans hNone)
    have hPart : 0 < loserPool := by
      rw [UInt64.lt_iff_toNat_lt, hRest]
      show 0 < result.rewardPool.toNat - result.rewardPool.toNat * 60 / 100
      omega
    rw [hEmpty, if_pos (by simp [hPart]), List.map_map, List.map_map, if_pos hNone]
    refine List.map_congr_left fun p hp => ?_
    have hContains : result.winners.contains p = true := by
      have hOut := List.filter_eq_nil_iff.mp hEmpty p hp
      simpa using hOut
    have hFirst := Nat.div_le_self (parts result).1 result.winners.length
    have hSecond := Nat.div_le_self (parts result).2 result.winners.length
    have hSum : (parts result).1 + (parts result).2 = result.rewardPool.toNat := by
      show result.rewardPool.toNat * 60 / 100 + (_ - result.rewardPool.toNat * 60 / 100) = _
      omega
    simp only [Function.comp_apply, hContains, if_true, toNat_saturatingAdd, toNat_share, hWon,
      hRest]
    omega
  · have hSome : (result.players.filter fun p => !result.winners.contains p).isEmpty = false := by
      rw [← Bool.not_eq_true, List.isEmpty_iff]
      intro hNil
      exact hNone (hLost.trans (by rw [hNil]; rfl))
    simp only [hSome, Bool.false_and, Bool.false_eq_true, if_false, Bool.not_false, if_true,
      hNone, Nat.add_zero, List.map_map]
    refine List.map_congr_left fun p _ => ?_
    rw [Function.comp_apply]
    split
    · rw [toNat_share, hWon]
    · rw [toNat_share, hRest, hLost]

/-- The pool, divided. -/
theorem pool_eq (result : MatchResult) :
    result.rewardPool.toNat = result.winners.length * winnerPay result +
      lost result * ((parts result).2 / lost result) + leftOver result := by
  have hSum : (parts result).1 + (parts result).2 = result.rewardPool.toNat := by
    show result.rewardPool.toNat * 60 / 100 + (_ - result.rewardPool.toNat * 60 / 100) = _
    omega
  have hFirst := Nat.div_add_mod (parts result).1 result.winners.length
  unfold winnerPay leftOver
  by_cases hNone : lost result = 0
  · have hSecond := Nat.div_add_mod (parts result).2 result.winners.length
    rw [if_pos hNone, if_pos hNone, hNone, Nat.mul_add, Nat.zero_mul]
    omega
  · have hSecond := Nat.div_add_mod (parts result).2 (lost result)
    rw [if_neg hNone, if_neg hNone, Nat.add_zero]
    omega

theorem leftOver_lt (h : result.isWellFormed = true) :
    leftOver result < result.winners.length + max result.winners.length (lost result) := by
  simp only [MatchResult.isWellFormed, Bool.and_eq_true, Bool.not_eq_true'] at h
  have hPos : 0 < result.winners.length := List.length_pos_iff.mpr (by simpa using h.1.2)
  have hFirst := Nat.mod_lt (parts result).1 hPos
  unfold leftOver
  by_cases hNone : lost result = 0
  · have hSecond := Nat.mod_lt (parts result).2 hPos
    rw [if_pos hNone]
    omega
  · have hSecond := Nat.mod_lt (parts result).2 (Nat.pos_of_ne_zero hNone)
    rw [if_neg hNone]
    omega

/-- The split of a well-formed result is right exactly if the list of players has as many entries
of winners as the list of winners has entries, or so many more that rounding pays for them, or so
many less that what they would be paid is within the tolerance. -/
theorem splitsPool_iff {result : MatchResult} (h : result.isWellFormed = true) :
    SplitsPool result ↔
      won result = result.winners.length ∨
      (result.winners.length < won result ∧
        (won result - result.winners.length) * winnerPay result ≤ leftOver result) ∨
      (won result < result.winners.length ∧
        (result.winners.length - won result) * winnerPay result + leftOver result <
          result.players.length + result.winners.length) := by
  have hPool := pool_eq result
  have hLeft := leftOver_lt h
  have hLength := won_add_lost result
  have hPaid : paidOut (calculateRewardDistribution result) =
      won result * winnerPay result + lost result * ((parts result).2 / lost result) := by
    by_cases hZero : result.rewardPool = 0
    · simp [paidOut, calculateRewardDistribution, winnerPay, parts, hZero]
    · rw [paidOut, toNat_payouts h hZero, sum_map_ite]
      rfl
  unfold SplitsPool
  rw [hPaid]
  dsimp only
  rcases Nat.lt_trichotomy (won result) result.winners.length with hLess | hEq | hMore
  · have hMul : result.winners.length * winnerPay result = won result * winnerPay result +
        (result.winners.length - won result) * winnerPay result := by
      rw [← Nat.add_mul, Nat.add_sub_cancel' hLess.le]
    omega
  · rw [hEq] at hLength ⊢
    omega
  · have hMul : won result * winnerPay result = result.winners.length * winnerPay result +
        (won result - result.winners.length) * winnerPay result := by
      rw [← Nat.add_mul, Nat.add_sub_cancel' hMore.le]
    omega

/-- Three players, two of them winners, and a pool that the shares do not divide. -/
def threePlayers : MatchResult :=
  { zeroMatch 3 2 with
    players := [Address.ofByte 1, Address.ofByte 2, Address.ofByte 3]
    winners := [Address.ofByte 1, Address.ofByte 2]
    rewardPool := 105 }

theorem splitsPool_iff_threePlayers :
    paidOut (calculateRewardDistribution threePlayers) = 104 ∧ SplitsPool threePlayers :=
  ⟨by decide +kernel, (splitsPool_iff (by decide +kernel)).mpr (.inl (by decide +kernel))⟩

/-- A player listed twice is paid the whole pool twice. -/
theorem pool_paid_twice :
    ¬ SplitsPool { zeroMatch 2 1 with rewardPool := 100 } := by
  intro h
  have hPaid := h.1
  revert hPaid
  decide +kernel

end Polay.Attestation
