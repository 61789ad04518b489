import Mathlib
import Polay.Lib.Trace

/-!
# The rate limits of the RPC server

All submissions ask one throttle. Its counter is an atomic word and only the start of the window
is behind a lock, so the calls interleave at every access. A call counts itself first and takes
the count back if the limit was reached. When a new window starts in between, the counter is set
to zero and then lowered by what was counted in the old window. The requests of an address are
counted under a lock, and old windows are forgotten from time to time.
-/

namespace Polay.Rpc

open Lib.Trace

/-- The whole seconds of a duration in nanoseconds. -/
def asSecs (duration : Nat) : Nat := duration / 1000000000

structure SubmissionThrottle where
  maxPerSecond : UInt32
  counter : UInt32
  windowStart : Nat

/-- Where a call of `checkAndIncrement` is: before it, with the clock read, with the window found
expired, before it counts itself, and before it takes its count back. -/
inductive Phase where
  | idle
  | started (now : Nat)
  | expired (now : Nat)
  | counting
  | undoing
deriving DecidableEq

namespace SubmissionThrottle

def new (maxPerSecond : UInt32) (now : Nat) : SubmissionThrottle := ⟨maxPerSecond, 0, now⟩

/-- The next access of a call of `checkAndIncrement`, and its answer if that is the last one.
The window is started again after a second look, under the lock, which hides its start until the
counter is zero. -/
def checkAndIncrement (t : SubmissionThrottle) (clock : Nat) :
    Phase → SubmissionThrottle × Phase × Option Bool
  | .idle => (t, .started clock, none)
  | .started now =>
      if 1 ≤ asSecs (now - t.windowStart) then (t, .expired now, none) else (t, .counting, none)
  | .expired now =>
      if 1 ≤ asSecs (now - t.windowStart) then
        ({ t with windowStart := now, counter := 0 }, .counting, none)
      else (t, .counting, none)
  | .counting =>
      let prev := t.counter
      if t.maxPerSecond ≤ prev then ({ t with counter := prev + 1 }, .undoing, none)
      else ({ t with counter := prev + 1 }, .idle, some true)
  | .undoing => ({ t with counter := t.counter - 1 }, .idle, some false)

end SubmissionThrottle

/-! ## Interleavings -/

/-- The throttle with the calls that are under way. Of the current window the server remembers
the submissions it accepted, and how many refusals were under way when it started. -/
structure Server where
  clock : Nat
  throttle : SubmissionThrottle
  calls : List Phase
  accepted : Nat
  caught : Nat

namespace Server

open SubmissionThrottle (checkAndIncrement)

/-- A server with a number of workers, none of which is in a call. -/
def start (maxPerSecond : UInt32) (workers clock : Nat) : Server :=
  ⟨clock, .new maxPerSecond clock, List.replicate workers .idle, 0, 0⟩

/-- After some time a worker takes its next step. -/
def step (s : Server) (turn : Nat × Nat) : Server :=
  match s.calls[turn.1]? with
  | none => s
  | some phase =>
      let clock := s.clock + turn.2
      let (throttle, next, answer) := s.throttle.checkAndIncrement clock phase
      let calls := s.calls.set turn.1 next
      if throttle.windowStart = s.throttle.windowStart then
        ⟨clock, throttle, calls, if answer = some true then s.accepted + 1 else s.accepted,
          s.caught⟩
      else ⟨clock, throttle, calls, 0, calls.count .undoing⟩

/-- The counter is ahead of the accepted submissions by the refusals under way, and behind by
those that were taken back although they were counted in an earlier window. Of the refusals
that were caught by the start of the window, `stale` are still under way and `done` are not. -/
def Balanced (counter accepted undoing caught : Nat) : Prop :=
  ∃ stale done, caught = stale + done ∧ stale ≤ undoing ∧
    (counter + done) % 2 ^ 32 = (accepted + (undoing - stale)) % 2 ^ 32

section Balanced

variable {counter accepted undoing caught : Nat}

theorem Balanced.refused (h : Balanced counter accepted undoing caught) :
    Balanced ((counter + 1) % 2 ^ 32) accepted (undoing + 1) caught := by
  obtain ⟨stale, done, hCaught, hStale, hCounter⟩ := h
  exact ⟨stale, done, hCaught, by omega, by omega⟩

theorem Balanced.counted (h : Balanced counter accepted undoing caught) :
    Balanced ((counter + 1) % 2 ^ 32) (accepted + 1) undoing caught := by
  obtain ⟨stale, done, hCaught, hStale, hCounter⟩ := h
  exact ⟨stale, done, hCaught, hStale, by omega⟩

/-- If all refusals under way are stale, one of them is taken back. -/
theorem Balanced.undone (h : Balanced counter accepted (undoing + 1) caught) :
    Balanced ((2 ^ 32 - 1 + counter) % 2 ^ 32) accepted undoing caught := by
  obtain ⟨stale, done, hCaught, hStale, hCounter⟩ := h
  by_cases hAll : stale = undoing + 1
  · exact ⟨stale - 1, done + 1, by omega, by omega, by omega⟩
  · exact ⟨stale, done, hCaught, by omega, by omega⟩

/-- While the counter is below the limit, the limit and the caught refusals leave room for one
more submission. -/
theorem Balanced.room {limit workers : Nat} (h : Balanced counter accepted undoing caught)
    (hRoom : 2 * workers + limit < 2 ^ 32) (hUndoing : undoing ≤ workers)
    (hCaught : caught ≤ workers) (hAccepted : accepted ≤ limit + caught)
    (hBelow : counter < limit) : accepted + 1 ≤ limit + caught := by
  obtain ⟨stale, done, hSplit, hStale, hCounter⟩ := h
  omega

end Balanced

/-- What holds between any two accesses. -/
structure Counted (cap : UInt32) (workers : Nat) (s : Server) : Prop where
  limit : s.throttle.maxPerSecond = cap
  length : s.calls.length = workers
  caught_le : s.caught ≤ workers
  accepted_le : s.accepted ≤ cap.toNat + s.caught
  balanced : Balanced s.throttle.counter.toNat s.accepted (s.calls.count .undoing) s.caught

variable {cap : UInt32} {workers : Nat} {s : Server}

theorem counted_start (cap : UInt32) (workers clock : Nat) :
    Counted cap workers (start cap workers clock) :=
  ⟨rfl, List.length_replicate, Nat.zero_le _, Nat.zero_le _, 0, 0, rfl, Nat.zero_le _, by
    simp [start, SubmissionThrottle.new, List.count_replicate]⟩

/-- The refusals under way after a call has moved on. -/
theorem count_set {l : List Phase} {i : Nat} {phase : Phase} (h : l[i]? = some phase)
    (next : Phase) :
    (l.set i next).count .undoing + (if phase = .undoing then 1 else 0) =
      l.count .undoing + (if next = .undoing then 1 else 0) := by
  obtain ⟨hLt, hGet⟩ := List.getElem?_eq_some_iff.mp h
  have hPos : phase = .undoing → 0 < l.count .undoing := by
    rintro rfl
    exact List.count_pos_iff.mpr (hGet ▸ List.getElem_mem hLt)
  rw [List.count_set hLt, hGet]
  simp only [beq_iff_eq]
  split <;> split <;> simp_all

/-- A call moves on within a window. -/
theorem Counted.moved (h : Counted cap workers s) {i : Nat} {phase : Phase}
    (hCall : s.calls[i]? = some phase) (clock : Nat) (next : Phase) (counter : UInt32)
    (accepted : Nat) (hAccepted : accepted ≤ cap.toNat + s.caught)
    (hBalanced : ∀ undoing, undoing + (if phase = .undoing then 1 else 0) =
      s.calls.count .undoing + (if next = .undoing then 1 else 0) →
        Balanced counter.toNat accepted undoing s.caught) :
    Counted cap workers
      ⟨clock, { s.throttle with counter }, s.calls.set i next, accepted, s.caught⟩ :=
  ⟨h.limit, (List.length_set).trans h.length, h.caught_le, hAccepted,
    hBalanced _ (count_set hCall next)⟩

/-- The refusals under way when a window starts are caught by it. -/
theorem Counted.restarted (h : Counted cap workers s) (now i clock : Nat) :
    Counted cap workers ⟨clock, { s.throttle with windowStart := now, counter := 0 },
      s.calls.set i .counting, 0, (s.calls.set i .counting).count .undoing⟩ := by
  have hLength : (s.calls.set i Phase.counting).length = workers :=
    (List.length_set).trans h.length
  exact ⟨h.limit, hLength, hLength ▸ List.count_le_length, Nat.zero_le _,
    (s.calls.set i .counting).count .undoing, 0, rfl, Nat.le_refl _, by simp⟩

/-- Every access keeps the count. -/
theorem Counted.step (hRoom : 2 * workers + cap.toNat < 2 ^ 32)
    (h : Counted cap workers s) (turn : Nat × Nat) :
    Counted cap workers (s.step turn) := by
  unfold Server.step
  cases hCall : s.calls[turn.1]? with
  | none => exact h
  | some phase =>
      have hMoved := h.moved hCall (s.clock + turn.2)
      cases phase with
      | idle =>
          simpa [checkAndIncrement] using
            hMoved (.started _) _ _ h.accepted_le (by simpa using h.balanced)
      | started now =>
          by_cases hOver : 1 ≤ asSecs (now - s.throttle.windowStart)
          · simpa [checkAndIncrement, hOver] using
              hMoved (.expired now) _ _ h.accepted_le (by simpa using h.balanced)
          · simpa [checkAndIncrement, hOver] using
              hMoved .counting _ _ h.accepted_le (by simpa using h.balanced)
      | expired now =>
          by_cases hOver : 1 ≤ asSecs (now - s.throttle.windowStart)
          · have hLater : now ≠ s.throttle.windowStart := by
              rintro rfl
              simp [asSecs] at hOver
            simpa only [checkAndIncrement, if_pos hOver, if_neg hLater] using
              h.restarted now turn.1 (s.clock + turn.2)
          · simpa [checkAndIncrement, hOver] using
              hMoved .counting _ _ h.accepted_le (by simpa using h.balanced)
      | counting =>
          obtain rfl := h.limit
          by_cases hFull : s.throttle.maxPerSecond ≤ s.throttle.counter
          · simpa [checkAndIncrement, hFull] using hMoved .undoing (s.throttle.counter + 1) _
              h.accepted_le (by simpa using h.balanced.refused)
          · have hBelow : s.throttle.counter.toNat < s.throttle.maxPerSecond.toNat :=
              UInt32.lt_iff_toNat_lt.mp (UInt32.not_le.mp hFull)
            have hLe := h.balanced.room hRoom (h.length ▸ List.count_le_length) h.caught_le
              h.accepted_le hBelow
            simpa [checkAndIncrement, hFull] using
              hMoved .idle (s.throttle.counter + 1) _ hLe (by simpa using h.balanced.counted)
      | undoing =>
          have hUndone : ∀ undoing, undoing + 1 = s.calls.count .undoing →
              Balanced (s.throttle.counter - 1).toNat s.accepted undoing s.caught := by
            intro undoing hCount
            have hBalanced := hCount ▸ h.balanced
            rw [UInt32.toNat_sub]
            exact hBalanced.undone
          simpa [checkAndIncrement] using
            hMoved .idle _ _ h.accepted_le (by simpa using hUndone)

/-- In whatever order the calls take their steps, the current window has accepted at most the
limit, and one submission more for every refusal that was under way when it started. If there
was none, the counter is exactly what was accepted and what is being refused. -/
theorem window_accepted_le (maxPerSecond : UInt32) (workers clock : Nat)
    (hRoom : 2 * workers + maxPerSecond.toNat < 2 ^ 32) (turns : List (Nat × Nat)) (s : Server)
    (hRun : after step (start maxPerSecond workers clock) turns = s) :
    s.accepted ≤ maxPerSecond.toNat + s.caught ∧
      (s.caught = 0 → s.throttle.counter.toNat = s.accepted + s.calls.count .undoing) := by
  have h : Counted maxPerSecond workers s := hRun ▸
    List.foldlRecOn (motive := Counted maxPerSecond workers) turns step
      (counted_start maxPerSecond workers clock) fun _ h turn _ => h.step hRoom turn
  obtain ⟨stale, done, hCaught, hStale, hCounter⟩ := h.balanced
  have hUndoing : s.calls.count .undoing ≤ workers := h.length ▸ List.count_le_length
  have hSmall := s.throttle.counter.toNat_lt
  have hAccepted := h.accepted_le
  exact ⟨hAccepted, fun hNone => by omega⟩

/-- Of three calls under a limit of one, the second is refused; before it has taken its count
back, the third starts a new window. That window accepts two submissions. -/
theorem window_accepted_le_second :
    let turns := [(0, 0), (0, 0), (0, 0), (1, 0), (1, 0), (1, 0), (2, 1000000000), (2, 0),
      (2, 0), (2, 0), (1, 0), (0, 0), (0, 0), (0, 0)]
    let s := after step (start 1 3 0) turns
    s.accepted = 2 ∧ s.accepted ≤ (1 : UInt32).toNat + s.caught := by
  intro turns s
  exact ⟨by decide, (window_accepted_le 1 3 0 (by decide) turns s rfl).1⟩

end Server

/-! ## The limit per address -/

structure IpBucket where
  count : UInt32
  windowStart : Nat

structure IpRateLimiter where
  maxPerSecond : UInt32
  buckets : String → Option IpBucket
  lastCleanup : Nat

namespace IpRateLimiter

def new (maxPerSecond : UInt32) (now : Nat) : IpRateLimiter := ⟨maxPerSecond, fun _ => none, now⟩

/-- Forget the windows that are a minute old, at most once in 30 seconds. -/
def maybeCleanup (l : IpRateLimiter) (now : Nat) : IpRateLimiter :=
  if 30 ≤ asSecs (now - l.lastCleanup) then
    { l with
      buckets := fun ip => (l.buckets ip).filter fun b => asSecs (now - b.windowStart) < 60
      lastCleanup := now }
  else l

/-- The bucket of an address, with its window started again if that is over. -/
def bucketAt (l : IpRateLimiter) (now : Nat) (ip : String) : IpBucket :=
  let bucket := (l.buckets ip).getD ⟨0, now⟩
  if 1 ≤ asSecs (now - bucket.windowStart) then ⟨0, now⟩ else bucket

/-- Count a request in its bucket. -/
def count (l : IpRateLimiter) (now : Nat) (ip : String) : IpRateLimiter × Bool :=
  let bucket := l.bucketAt now ip
  let allowed := decide (bucket.count < l.maxPerSecond)
  let bucket := if allowed then { bucket with count := bucket.count + 1 } else bucket
  ({ l with buckets := Function.update l.buckets ip (some bucket) }, allowed)

def checkAndIncrement (l : IpRateLimiter) (now : Nat) (ip : String) : IpRateLimiter × Bool :=
  (l.maybeCleanup now).count now ip

/-- The answers to requests, each with the time since the one before. -/
def answers (check : IpRateLimiter → Nat → String → IpRateLimiter × Bool) :
    IpRateLimiter → Nat → List (Nat × String) → List Bool
  | _, _, [] => []
  | l, now, (wait, ip) :: rest =>
      (check l (now + wait) ip).2 :: answers check (check l (now + wait) ip).1 (now + wait) rest

/-- `l` is `m` without some windows that are over. -/
def Forgets (now : Nat) (l m : IpRateLimiter) : Prop :=
  l.maxPerSecond = m.maxPerSecond ∧ ∀ ip, l.buckets ip = m.buckets ip ∨
    l.buckets ip = none ∧ ∀ b ∈ m.buckets ip, 1 ≤ asSecs (now - b.windowStart)

variable {l m : IpRateLimiter} {now : Nat}

theorem Forgets.later (h : Forgets now l m) (wait : Nat) : Forgets (now + wait) l m :=
  ⟨h.1, fun ip => (h.2 ip).imp_right fun hOld => ⟨hOld.1, fun b hb =>
    (hOld.2 b hb).trans (Nat.div_le_div_right (by omega))⟩⟩

theorem Forgets.maybeCleanup (h : Forgets now l m) : Forgets now (l.maybeCleanup now) m := by
  unfold IpRateLimiter.maybeCleanup
  split
  · refine ⟨h.1, fun ip => ?_⟩
    rcases h.2 ip with hSame | ⟨hNone, hOld⟩
    · cases hBucket : m.buckets ip with
      | none => simp [hSame, hBucket]
      | some b =>
          by_cases hYoung : asSecs (now - b.windowStart) < 60
          · simp [hSame, hBucket, hYoung]
          · simp [hSame, hBucket, hYoung]
            omega
    · exact .inr ⟨by simp [hNone], hOld⟩
  · exact h

/-- A window that is over counts like none. -/
theorem Forgets.bucketAt (h : Forgets now l m) (ip : String) :
    l.bucketAt now ip = m.bucketAt now ip := by
  unfold IpRateLimiter.bucketAt
  rcases h.2 ip with hSame | ⟨hNone, hOld⟩
  · rw [hSame]
  · cases hBucket : m.buckets ip with
    | none => rw [hNone]
    | some b => simp [hNone, hOld b hBucket]

theorem Forgets.count (h : Forgets now l m) (ip : String) :
    (l.count now ip).2 = (m.count now ip).2 ∧
      Forgets now (l.count now ip).1 (m.count now ip).1 := by
  unfold IpRateLimiter.count
  rw [h.bucketAt ip, h.1]
  refine ⟨rfl, rfl, fun ip' => ?_⟩
  by_cases hIp : ip' = ip
  · subst hIp
    exact .inl (by simp)
  · simpa [hIp] using h.2 ip'

/-- Forgetting old windows never changes an answer. -/
theorem answers_eq_without_cleanup (maxPerSecond : UInt32) (now : Nat)
    (requests : List (Nat × String)) :
    answers checkAndIncrement (new maxPerSecond now) now requests =
      answers count (new maxPerSecond now) now requests := by
  suffices hAll : ∀ l m, Forgets now l m →
      answers checkAndIncrement l now requests = answers count m now requests from
    hAll _ _ ⟨rfl, fun _ => .inl rfl⟩
  induction requests generalizing now with
  | nil => exact fun _ _ _ => rfl
  | cons request rest ih =>
      intro l m h
      obtain ⟨hAnswer, hNext⟩ := (h.later request.1).maybeCleanup.count request.2
      simp only [answers, checkAndIncrement, hAnswer]
      exact congrArg _ (ih _ _ _ hNext)

end IpRateLimiter

end Polay.Rpc
