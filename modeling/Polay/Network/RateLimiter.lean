import Mathlib
import Polay.Lib.Machine
import Polay.Lib.Trace

/-!
# The rate limit of a peer

Messages and bytes of a peer are counted in windows of a second. A window starts
with the first message after the end of the last one and forgets what came before
it, so that a peer can use up its limits at the end of one window and again at
the start of the next.
-/

namespace Polay.Network

open Lib.Machine Lib.Trace

/-- A second of the monotonic clock, which counts nanoseconds. -/
def second : Nat := 1000000000

structure PeerLimit where
  messageCount : UInt32
  byteCount : UInt64
  windowStart : Nat

namespace PeerLimit

def new (now : Nat) : PeerLimit := ⟨0, 0, now⟩

/-- Reset the counters if the window has elapsed. -/
def maybeReset (now : Nat) (l : PeerLimit) : PeerLimit :=
  if 1 ≤ (now - l.windowStart) / second then ⟨0, 0, now⟩ else l

end PeerLimit

variable {PeerId : Type} [DecidableEq PeerId]

structure PeerRateLimiter (PeerId : Type) where
  limits : Finmap fun _ : PeerId => PeerLimit
  maxMessagesPerSecond : UInt32
  maxBytesPerSecond : UInt64

namespace PeerRateLimiter

def new (maxMsgPerSec : UInt32) (maxBytesPerSec : UInt64) : PeerRateLimiter PeerId :=
  ⟨∅, maxMsgPerSec, maxBytesPerSec⟩

/-- The counters of a peer, with those of a first message started now. -/
def limitAt (r : PeerRateLimiter PeerId) (now : Nat) (peer : PeerId) : PeerLimit :=
  ((r.limits.lookup peer).getD (PeerLimit.new now)).maybeReset now

/-- Whether a message of the given size is allowed. -/
def checkRate (r : PeerRateLimiter PeerId) (now : Nat) (peer : PeerId) (messageSize : UInt64) :
    Bool × PeerRateLimiter PeerId :=
  let limit := r.limitAt now peer
  if r.maxMessagesPerSecond ≤ limit.messageCount then
    (false, { r with limits := r.limits.insert peer limit })
  else if r.maxBytesPerSecond < saturatingAdd limit.byteCount messageSize then
    (false, { r with limits := r.limits.insert peer limit })
  else
    let limit := { limit with
      messageCount := limit.messageCount + 1
      byteCount := limit.byteCount + messageSize }
    (true, { r with limits := r.limits.insert peer limit })

def removePeer (r : PeerRateLimiter PeerId) (peer : PeerId) : PeerRateLimiter PeerId :=
  { r with limits := r.limits.erase peer }

/-- A message is turned away, or it is within the limits and counted. -/
theorem checkRate_cases (r : PeerRateLimiter PeerId) (now : Nat) (peer : PeerId)
    (size : UInt64) :
    r.checkRate now peer size =
        (false, { r with limits := r.limits.insert peer (r.limitAt now peer) }) ∨
      (r.limitAt now peer).messageCount < r.maxMessagesPerSecond ∧
        saturatingAdd (r.limitAt now peer).byteCount size ≤ r.maxBytesPerSecond ∧
        r.checkRate now peer size = (true, { r with
          limits := r.limits.insert peer { r.limitAt now peer with
            messageCount := (r.limitAt now peer).messageCount + 1
            byteCount := (r.limitAt now peer).byteCount + size } }) := by
  unfold checkRate
  dsimp only
  split
  · exact .inl rfl
  next hMessages =>
    split
    · exact .inl rfl
    next hBytes => exact .inr ⟨UInt32.not_le.mp hMessages, UInt64.not_lt.mp hBytes, rfl⟩

end PeerRateLimiter

/-! ## Runs -/

/-- A message that arrives some time after the last one, or the end of a connection. -/
inductive RateCall (PeerId : Type) where
  | checkRate (wait : Nat) (peer : PeerId) (messageSize : UInt64)
  | removePeer (peer : PeerId)

/-- A message that was allowed. -/
structure Allowed (PeerId : Type) where
  time : Nat
  peer : PeerId
  size : UInt64
deriving DecidableEq

/-- The limiter at a time, and the messages it has allowed so far. -/
structure RateRun (PeerId : Type) where
  clock : Nat
  limiter : PeerRateLimiter PeerId
  allowed : List (Allowed PeerId)

namespace RateRun

def start (clock : Nat) (maxMsgPerSec : UInt32) (maxBytesPerSec : UInt64) : RateRun PeerId :=
  ⟨clock, .new maxMsgPerSec maxBytesPerSec, []⟩

def step (s : RateRun PeerId) : RateCall PeerId → RateRun PeerId
  | .checkRate wait peer messageSize =>
      let now := s.clock + wait
      let (ok, limiter) := s.limiter.checkRate now peer messageSize
      ⟨now, limiter, if ok then s.allowed ++ [⟨now, peer, messageSize⟩] else s.allowed⟩
  | .removePeer peer => { s with limiter := s.limiter.removePeer peer }

/-- A message of the peer that starts a new window comes a second after the last that was
allowed. -/
def Rested (peer : PeerId) (s : RateRun PeerId) : RateCall PeerId → Prop
  | .checkRate wait sender _ =>
      sender = peer → ∀ limit, s.limiter.limits.lookup peer = some limit →
        limit.windowStart + second ≤ s.clock + wait →
          ∀ a ∈ s.allowed, a.peer = peer → a.time + second ≤ s.clock + wait
  | .removePeer _ => True

end RateRun

/-! ## Counting messages -/

/-- The messages of a peer whose times pass a test stay within the given limits. -/
def Within (allowed : List (Allowed PeerId)) (peer : PeerId) (q : Nat → Bool)
    (messages bytes : Nat) : Prop :=
  let sent := allowed.filter fun a => a.peer = peer && q a.time
  sent.length ≤ messages ∧ (sent.map fun a => a.size.toNat).sum ≤ bytes

section Within

variable {l : List (Allowed PeerId)} {peer : PeerId} {q q' : Nat → Bool}
variable {messages bytes : Nat} {a : Allowed PeerId}

theorem within_of_none (h : ∀ a ∈ l, a.peer = peer → q a.time = false) :
    Within l peer q messages bytes := by
  have hNil : (l.filter fun a => a.peer = peer && q a.time) = [] := by
    rw [List.filter_eq_nil_iff]
    intro a ha hTest
    rw [Bool.and_eq_true, decide_eq_true_eq] at hTest
    rw [h a ha hTest.1] at hTest
    exact Bool.false_ne_true hTest.2
  unfold Within
  rw [hNil]
  exact ⟨Nat.zero_le _, Nat.zero_le _⟩

/-- Fewer messages stay within the limits. -/
theorem Within.mono (h : Within l peer q messages bytes)
    (hq : ∀ t, q' t = true → q t = true) : Within l peer q' messages bytes := by
  have hSub : (l.filter fun a => a.peer = peer && q' a.time).Sublist
      (l.filter fun a => a.peer = peer && q a.time) := by
    apply List.monotone_filter_right
    intro a ha
    rw [Bool.and_eq_true] at ha ⊢
    exact ⟨ha.1, hq _ ha.2⟩
  have hSum := (hSub.map fun a => a.size.toNat).sum_le_sum fun _ _ => Nat.zero_le _
  exact ⟨hSub.length_le.trans h.1, hSum.trans h.2⟩

theorem Within.concat (h : Within l peer q messages bytes) :
    Within (l ++ [a]) peer q (messages + 1) (bytes + a.size.toNat) := by
  obtain ⟨hLength, hSum⟩ := h
  unfold Within
  dsimp only
  rw [List.filter_append, List.map_append, List.length_append, List.sum_append]
  rcases List.sublist_singleton.mp
    (List.filter_sublist (p := fun a => a.peer = peer && q a.time) (l := [a])) with hNil | hOne
  · rw [hNil]
    exact ⟨Nat.le_succ_of_le hLength, Nat.le_add_right_of_le hSum⟩
  · rw [hOne]
    exact ⟨Nat.add_le_add_right hLength 1, Nat.add_le_add_right hSum _⟩

/-- A message that the test does not select. -/
theorem Within.skip (h : Within l peer q messages bytes)
    (ha : a.peer = peer → q a.time = false) : Within (l ++ [a]) peer q messages bytes := by
  unfold Within
  rw [List.filter_append, List.filter_cons_of_neg, List.filter_nil, List.append_nil]
  · exact h
  · rw [Bool.and_eq_true, decide_eq_true_eq]
    rintro ⟨hPeer, hTest⟩
    rw [ha hPeer] at hTest
    cases hTest

end Within

/-! ## One step -/

namespace RateRun

/-- The counters of a window cover the messages allowed in it and in the second before it. -/
structure Counted (clock : Nat) (allowed : List (Allowed PeerId)) (peer : PeerId)
    (limit : PeerLimit) : Prop where
  started : limit.windowStart ≤ clock
  within : Within allowed peer (fun t => limit.windowStart < t + second)
    limit.messageCount.toNat limit.byteCount.toNat

/-- What the limiter knows of a peer, and that its limits held so far. -/
structure Tracked (peer : PeerId) (maxMessages : UInt32) (maxBytes : UInt64)
    (s : RateRun PeerId) : Prop where
  messages : s.limiter.maxMessagesPerSecond = maxMessages
  bytes : s.limiter.maxBytesPerSecond = maxBytes
  counted : ∀ limit, s.limiter.limits.lookup peer = some limit →
    Counted s.clock s.allowed peer limit
  unknown : s.limiter.limits.lookup peer = none → ∀ a ∈ s.allowed, a.peer ≠ peer
  within : ∀ t, Within s.allowed peer (fun u => t ≤ u && u < t + second) maxMessages.toNat
    maxBytes.toNat

variable {peer sender : PeerId} {s : RateRun PeerId} {wait : Nat} {size : UInt64}
variable {maxMessages : UInt32} {maxBytes : UInt64}

/-- The window that a message is counted in covers all messages of the last second. -/
theorem Tracked.counted_limitAt (h : Tracked peer maxMessages maxBytes s)
    (hRested : Rested peer s (.checkRate wait peer size)) :
    Counted (s.clock + wait) s.allowed peer (s.limiter.limitAt (s.clock + wait) peer) := by
  have hFresh (hOld : ∀ a ∈ s.allowed, a.peer = peer → a.time + second ≤ s.clock + wait) :
      Counted (s.clock + wait) s.allowed peer (PeerLimit.new (s.clock + wait)) := by
    refine ⟨Nat.le_refl _, within_of_none fun a ha hPeer => decide_eq_false ?_⟩
    exact Nat.not_lt.mpr (hOld a ha hPeer)
  unfold PeerRateLimiter.limitAt PeerLimit.maybeReset
  cases hLookup : s.limiter.limits.lookup peer with
  | none =>
      have hNew := hFresh fun a ha hPeer => absurd hPeer (h.unknown hLookup a ha)
      rw [Option.getD_none]
      split
      · exact hNew
      · exact hNew
  | some limit =>
      rw [Option.getD_some]
      split
      next hElapsed =>
        have hSecond := (Nat.le_div_iff_mul_le (by decide : 0 < second)).mp hElapsed
        refine hFresh (hRested rfl limit hLookup ?_)
        rw [second] at hSecond ⊢
        omega
      next =>
        have hCounted := h.counted limit hLookup
        exact ⟨Nat.le_add_right_of_le hCounted.started, hCounted.within⟩

/-- A message of the peer itself. -/
theorem Tracked.step_own (h : Tracked peer maxMessages maxBytes s) (hMax : maxBytes ≠ u64Max)
    (hRested : Rested peer s (.checkRate wait peer size)) :
    Tracked peer maxMessages maxBytes (s.step (.checkRate wait peer size)) := by
  have hCounted := h.counted_limitAt hRested
  rcases s.limiter.checkRate_cases (s.clock + wait) peer size with hNo | ⟨hRoom, hFits, hYes⟩
  · simp only [step, hNo, Bool.false_eq_true, if_false]
    refine ⟨h.messages, h.bytes, fun limit hLookup => ?_, fun hLookup => ?_, h.within⟩
    · rw [Finmap.lookup_insert] at hLookup
      obtain rfl := Option.some.inj hLookup
      exact hCounted
    · rw [Finmap.lookup_insert] at hLookup
      cases hLookup
  · generalize s.limiter.limitAt (s.clock + wait) peer = limit at *
    rw [h.messages, UInt32.lt_iff_toNat_lt] at hRoom
    rw [h.bytes] at hFits
    -- The count does not overflow below its limit, and neither do the bytes.
    have hMessages : (limit.messageCount + 1).toNat = limit.messageCount.toNat + 1 := by
      have hLt := maxMessages.toNat_lt
      rw [UInt32.toNat_add, Nat.mod_eq_of_lt (by simp; omega)]
      rfl
    have hSum : limit.byteCount.toNat + size.toNat < 2 ^ 64 := by
      by_contra hOver
      rw [saturatingAdd, if_neg hOver] at hFits
      exact hMax (UInt64.le_antisymm (le_u64Max _) hFits)
    have hBytes : (limit.byteCount + size).toNat = limit.byteCount.toNat + size.toNat := by
      rw [UInt64.toNat_add, Nat.mod_eq_of_lt hSum]
    rw [saturatingAdd, if_pos hSum, UInt64.le_iff_toNat_le, hBytes] at hFits
    simp only [step, hYes, if_true]
    refine ⟨h.messages, h.bytes, fun limit' hLookup => ?_, fun hLookup => ?_, fun t => ?_⟩
    · rw [Finmap.lookup_insert] at hLookup
      obtain rfl := Option.some.inj hLookup
      refine ⟨hCounted.started, ?_⟩
      show Within _ _ _ (limit.messageCount + 1).toNat (limit.byteCount + size).toNat
      rw [hMessages, hBytes]
      exact hCounted.within.concat
    · rw [Finmap.lookup_insert] at hLookup
      cases hLookup
    · by_cases hIn : t ≤ s.clock + wait ∧ s.clock + wait < t + second
      · -- An interval with the new message has only messages of its window.
        have hStarted := hCounted.started
        have hOld : Within s.allowed peer (fun u => t ≤ u && u < t + second)
            limit.messageCount.toNat limit.byteCount.toNat := by
          refine hCounted.within.mono fun u hu => ?_
          rw [Bool.and_eq_true, decide_eq_true_eq, decide_eq_true_eq] at hu
          exact decide_eq_true (by omega)
        have hNew := hOld.concat (a := ⟨s.clock + wait, peer, size⟩)
        exact ⟨hNew.1.trans hRoom, hNew.2.trans hFits⟩
      · refine (h.within t).skip fun _ => ?_
        rw [← Bool.not_eq_true, Bool.and_eq_true, decide_eq_true_eq, decide_eq_true_eq]
        exact hIn

/-- A message of another peer. -/
theorem Tracked.step_other (h : Tracked peer maxMessages maxBytes s) (hOther : sender ≠ peer) :
    Tracked peer maxMessages maxBytes (s.step (.checkRate wait sender size)) := by
  have hStep : ∃ limits allowed, s.step (.checkRate wait sender size) =
      ⟨s.clock + wait, { s.limiter with limits := limits }, allowed⟩ ∧
      limits.lookup peer = s.limiter.limits.lookup peer ∧
      (allowed = s.allowed ∨ allowed = s.allowed ++ [⟨s.clock + wait, sender, size⟩]) := by
    rcases s.limiter.checkRate_cases (s.clock + wait) sender size with hNo | ⟨-, -, hYes⟩
    · simp only [step, hNo, Bool.false_eq_true, if_false]
      exact ⟨_, _, rfl, Finmap.lookup_insert_of_ne _ hOther.symm, .inl rfl⟩
    · simp only [step, hYes, if_true]
      exact ⟨_, _, rfl, Finmap.lookup_insert_of_ne _ hOther.symm, .inr rfl⟩
  obtain ⟨limits, allowed, hEq, hLookup, hAllowed⟩ := hStep
  have hWithin {q : Nat → Bool} {m b : Nat} (hOld : Within s.allowed peer q m b) :
      Within allowed peer q m b := by
    rcases hAllowed with rfl | rfl
    · exact hOld
    · exact hOld.skip fun hPeer => absurd hPeer hOther
  rw [hEq]
  refine ⟨h.messages, h.bytes, fun limit hLimit => ?_, fun hNone a ha => ?_,
    fun t => hWithin (h.within t)⟩
  · have hCounted := h.counted limit (hLookup.symm.trans hLimit)
    exact ⟨Nat.le_add_right_of_le hCounted.started, hWithin hCounted.within⟩
  · have hOld := h.unknown (hLookup.symm.trans hNone)
    rcases hAllowed with rfl | rfl
    · exact hOld a ha
    · rcases List.mem_append.mp ha with hMem | hNew
      · exact hOld a hMem
      · rw [List.mem_singleton.mp hNew]
        exact hOther

theorem Tracked.step {c : RateCall PeerId} (h : Tracked peer maxMessages maxBytes s)
    (hMax : maxBytes ≠ u64Max) (hRested : Rested peer s c) (hKept : c ≠ .removePeer peer) :
    Tracked peer maxMessages maxBytes (s.step c) := by
  cases c with
  | checkRate wait sender size =>
      by_cases hOwn : sender = peer
      · subst hOwn
        exact h.step_own hMax hRested
      · exact h.step_other hOwn
  | removePeer sender =>
      have hLookup : (s.limiter.limits.erase sender).lookup peer = s.limiter.limits.lookup peer :=
        Finmap.lookup_erase_ne fun hEq => hKept (by rw [hEq])
      exact ⟨h.messages, h.bytes, fun limit hLimit => h.counted limit (hLookup.symm.trans hLimit),
        fun hNone => h.unknown (hLookup.symm.trans hNone), h.within⟩

end RateRun

/-- In every interval shorter than a second a peer that is not removed is allowed as many messages
and bytes as the limits say, if each of its messages that starts a new window comes a second
after the last allowed one and the byte limit is not the largest number there is. -/
theorem allowed_within_limits {peer : PeerId} {clock : Nat} {maxMessages : UInt32}
    {maxBytes : UInt64} {calls : List (RateCall PeerId)} (hMax : maxBytes ≠ u64Max)
    (hKept : ∀ c ∈ calls, c ≠ .removePeer peer)
    (hRested : Along RateRun.step (RateRun.Rested peer) (.start clock maxMessages maxBytes) calls)
    (t : Nat) :
    Within (after RateRun.step (.start clock maxMessages maxBytes) calls).allowed peer
      (fun u => t ≤ u && u < t + second) maxMessages.toNat maxBytes.toNat := by
  have hStart : RateRun.Tracked peer maxMessages maxBytes (.start clock maxMessages maxBytes) := by
    refine ⟨rfl, rfl, fun limit h => ?_, fun _ a ha => ?_, fun t => ?_⟩
    · cases h
    · cases ha
    · exact within_of_none fun a ha => absurd ha List.not_mem_nil
  have hRun := (hRested.and (along_of_forall hKept _)).rule
    (I := RateRun.Tracked peer maxMessages maxBytes)
    (fun s c hs hc => hs.step hMax hc.1 hc.2) hStart
  exact hRun.within t

/-- A peer that comes back after a pause. -/
theorem allowed_within_limits_pause :
    Within (after RateRun.step (.start 0 2 100) [RateCall.checkRate 0 () 40,
        .checkRate 5000000000 () 60]).allowed ()
      (fun u => 0 ≤ u && u < 0 + second) 2 100 := by
  have hRested : Along RateRun.step (RateRun.Rested ()) (.start 0 2 100)
      [RateCall.checkRate 0 () 40, .checkRate 5000000000 () 60] := by
    refine ⟨fun _ limit hLimit => ?_, fun _ _ _ _ => ?_, trivial⟩
    · cases hLimit
    · decide +kernel
  exact allowed_within_limits (by decide) (by simp) hRested 0

/-- The last message of one window and two of the next. -/
theorem burst_across_windows :
    ¬ Within (after RateRun.step (.start 0 2 100) [RateCall.checkRate 0 () 1,
        .checkRate 900000000 () 1, .checkRate 100000000 () 1,
        .checkRate 100000000 () 1]).allowed ()
      (fun u => 900000000 ≤ u && u < 900000000 + second) 2 100 := by
  unfold Within
  decide +kernel

end Polay.Network
