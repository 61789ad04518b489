import Mathlib
import Polay.Lib.Trace

/-!
# Connected and banned peers

The peer manager keeps three tables: connected peers with their scores, bans with
their ends, and the addresses peers have connected from. A peer leaves the first
table when it disconnects, when it is banned, and when its score falls to the ban
threshold. The last of these does not clear its address: the address stays taken
by a peer that is not connected.
-/

namespace Polay.Network

open Lib.Trace

def defaultScore : Int := 100

def banThreshold : Int := -100

def maxPeersPerIp : Nat := 5

def goodMessageScore : Int := 1

def badMessagePenalty : Int := -20

/-- Signed 32-bit addition, clamped to the representable range. -/
def saturatingAddI32 (a b : Int) : Int := max (-2 ^ 31) (min (2 ^ 31 - 1) (a + b))

/-- What is kept of a connected peer. Times are nanoseconds of the monotonic clock. -/
structure PeerInfo where
  score : Int
  connectedAt : Nat
  lastMessage : Nat
  messagesReceived : UInt64
  invalidMessages : UInt64
  bytesReceived : UInt64

def PeerInfo.new (now : Nat) : PeerInfo := ⟨defaultScore, now, now, 0, 0, 0⟩

/-- A ban, permanent if it has no end. -/
structure BanRecord (PeerId : Type) where
  peerId : PeerId
  reason : String
  bannedAt : Nat
  expiresAt : Option Nat

/-- Whether the ban has not expired. -/
def BanRecord.active {PeerId : Type} (now : Nat) (record : BanRecord PeerId) : Bool :=
  match record.expiresAt with
  | some expires => now < expires
  | none => true

structure PeerManager (PeerId : Type) where
  peers : Finmap fun _ : PeerId => PeerInfo
  banned : Finmap fun _ : PeerId => BanRecord PeerId
  peerIps : Finmap fun _ : PeerId => String
  maxPeers : Nat
  maxPeersPerIp : Nat

namespace PeerManager

variable {PeerId : Type} [DecidableEq PeerId]

def new (maxPeers : Nat) : PeerManager PeerId := ⟨∅, ∅, ∅, maxPeers, Network.maxPeersPerIp⟩

def isBanned (m : PeerManager PeerId) (now : Nat) (peer : PeerId) : Bool :=
  match m.banned.lookup peer with
  | some record => record.active now
  | none => false

/-- Record a connected peer unless it is recorded. -/
def enter (m : PeerManager PeerId) (now : Nat) (peer : PeerId) :
    Finmap fun _ : PeerId => PeerInfo :=
  match m.peers.lookup peer with
  | some _ => m.peers
  | none => m.peers.insert peer (PeerInfo.new now)

def onPeerConnected (m : PeerManager PeerId) (now : Nat) (peer : PeerId) :
    Bool × PeerManager PeerId :=
  if m.isBanned now peer then (false, m)
  else if m.maxPeers ≤ m.peers.keys.card then (false, m)
  else (true, { m with peers := m.enter now peer })

/-- The peers that have connected from an address. -/
def fromIp (m : PeerManager PeerId) (ip : String) : Finset PeerId :=
  m.peerIps.keys.filter fun peer => m.peerIps.lookup peer = some ip

def onPeerConnectedWithIp (m : PeerManager PeerId) (now : Nat) (peer : PeerId) (ip : String) :
    Bool × PeerManager PeerId :=
  if m.isBanned now peer then (false, m)
  else if m.maxPeers ≤ m.peers.keys.card then (false, m)
  else if m.maxPeersPerIp ≤ (m.fromIp ip).card then (false, m)
  else (true, { m with peers := m.enter now peer, peerIps := m.peerIps.insert peer ip })

def onPeerDisconnected (m : PeerManager PeerId) (peer : PeerId) : PeerManager PeerId :=
  { m with peers := m.peers.erase peer, peerIps := m.peerIps.erase peer }

def recordGoodMessage (m : PeerManager PeerId) (now : Nat) (peer : PeerId) : PeerManager PeerId :=
  match m.peers.lookup peer with
  | some info =>
      { m with peers := m.peers.insert peer { info with
          score := saturatingAddI32 info.score goodMessageScore
          messagesReceived := info.messagesReceived + 1
          lastMessage := now } }
  | none => m

/-- An hour, in nanoseconds. -/
def hour : Nat := 3600 * 1000000000

/-- Lower the score of a peer, and ban it at the threshold. -/
def recordBadMessage (m : PeerManager PeerId) (now : Nat) (peer : PeerId) :
    Option (BanRecord PeerId) × PeerManager PeerId :=
  match m.peers.lookup peer with
  | some info =>
      let info := { info with
        score := saturatingAddI32 info.score badMessagePenalty
        invalidMessages := info.invalidMessages + 1
        lastMessage := now }
      if info.score ≤ banThreshold then
        let record := {
          peerId := peer
          reason := "score " ++ toString info.score ++ " <= ban threshold " ++
            toString banThreshold ++ " (" ++ toString info.invalidMessages ++ " invalid messages)"
          bannedAt := now
          expiresAt := some (now + hour) }
        (some record, { m with
          peers := m.peers.erase peer, banned := m.banned.insert peer record })
      else (none, { m with peers := m.peers.insert peer info })
  | none => (none, m)

def banPeer (m : PeerManager PeerId) (now : Nat) (peer : PeerId) (reason : String)
    (duration : Option Nat) : BanRecord PeerId × PeerManager PeerId :=
  let record := {
    peerId := peer
    reason := reason
    bannedAt := now
    expiresAt := duration.map (now + ·) }
  (record, { m with
    peers := m.peers.erase peer
    peerIps := m.peerIps.erase peer
    banned := m.banned.insert peer record })

instance : RightCommutative fun (banned : Finmap fun _ : PeerId => BanRecord PeerId) peer =>
    banned.erase peer where
  right_comm _ _ _ := Finmap.erase_erase

/-- Remove the bans that have expired. -/
def cleanupExpiredBans (m : PeerManager PeerId) (now : Nat) : Finset PeerId × PeerManager PeerId :=
  let expired := m.banned.keys.filter fun peer => !m.isBanned now peer
  (expired, { m with
    banned := expired.val.foldl (fun banned peer => banned.erase peer) m.banned })

end PeerManager

/-! ## Runs -/

/-- A call of the peer manager. -/
inductive PeerCall (PeerId : Type) where
  | onPeerConnected (peer : PeerId)
  | onPeerConnectedWithIp (peer : PeerId) (ip : String)
  | onPeerDisconnected (peer : PeerId)
  | recordGoodMessage (peer : PeerId)
  | recordBadMessage (peer : PeerId)
  | banPeer (peer : PeerId) (reason : String) (duration : Option Nat)
  | cleanupExpiredBans

variable {PeerId : Type} [DecidableEq PeerId]

/-- The tables after a call. -/
def PeerManager.call (m : PeerManager PeerId) (now : Nat) : PeerCall PeerId → PeerManager PeerId
  | .onPeerConnected peer => (m.onPeerConnected now peer).2
  | .onPeerConnectedWithIp peer ip => (m.onPeerConnectedWithIp now peer ip).2
  | .onPeerDisconnected peer => m.onPeerDisconnected peer
  | .recordGoodMessage peer => m.recordGoodMessage now peer
  | .recordBadMessage peer => (m.recordBadMessage now peer).2
  | .banPeer peer reason duration => (m.banPeer now peer reason duration).2
  | .cleanupExpiredBans => (m.cleanupExpiredBans now).2

/-- The peer manager at a time. -/
structure PeerRun (PeerId : Type) where
  clock : Nat
  manager : PeerManager PeerId

namespace PeerRun

/-- A call some time after the last one. -/
def step (s : PeerRun PeerId) (c : Nat × PeerCall PeerId) : PeerRun PeerId :=
  ⟨s.clock + c.1, s.manager.call (s.clock + c.1) c.2⟩

/-- Peers with a recorded address are connected, connected peers are not banned, and there are
not too many of them, together and from one address. -/
structure Consistent (s : PeerRun PeerId) : Prop where
  connected : ∀ peer ∈ s.manager.peerIps, peer ∈ s.manager.peers
  notBanned : ∀ peer ∈ s.manager.peers, s.manager.isBanned s.clock peer = false
  room : s.manager.peers.keys.card ≤ s.manager.maxPeers
  perIp : ∀ ip, (s.manager.peers.keys.filter fun peer =>
    s.manager.peerIps.lookup peer = some ip).card ≤ s.manager.maxPeersPerIp

/-- No bad message takes a peer with a recorded address to the ban threshold. -/
def AddressFree (s : PeerRun PeerId) (c : Nat × PeerCall PeerId) : Prop :=
  ∀ peer info, c.2 = .recordBadMessage peer → s.manager.peers.lookup peer = some info →
    info.score + badMessagePenalty ≤ banThreshold → peer ∉ s.manager.peerIps

/-! ## One call -/

variable {s : PeerRun PeerId} {peer : PeerId} {now wait : Nat}
variable {peers : Finmap fun _ : PeerId => PeerInfo} {peerIps : Finmap fun _ : PeerId => String}
variable {banned : Finmap fun _ : PeerId => BanRecord PeerId}
variable {other : PeerId}

/-- Bans end with time. -/
theorem isBanned_later {m : PeerManager PeerId} (h : m.isBanned now peer = false)
    (hBans : ∀ r, banned.lookup peer = some r → m.banned.lookup peer = some r) :
    { m with banned := banned }.isBanned (now + wait) peer = false := by
  unfold PeerManager.isBanned at h ⊢
  dsimp only
  cases hLookup : banned.lookup peer with
  | none => rfl
  | some record =>
      rw [hBans record hLookup] at h
      dsimp only [BanRecord.active] at h ⊢
      cases hEnd : record.expiresAt with
      | none =>
          rw [hEnd] at h
          cases h
      | some expires =>
          rw [hEnd] at h
          rw [decide_eq_false_iff_not] at h ⊢
          omega

/-- A peer with a recorded address is connected, so the addresses of connected peers are all
addresses. -/
theorem filter_keys_eq (h : ∀ peer ∈ peerIps, peer ∈ peers) (ip : String) :
    (peers.keys.filter fun peer => peerIps.lookup peer = some ip) =
      peerIps.keys.filter fun peer => peerIps.lookup peer = some ip := by
  ext peer
  simp only [Finset.mem_filter, Finmap.mem_keys]
  constructor
  · rintro ⟨-, hIp⟩
    exact ⟨Finmap.mem_of_lookup_eq_some hIp, hIp⟩
  · rintro ⟨hMem, hIp⟩
    exact ⟨h peer hMem, hIp⟩

/-- A call that only removes peers, addresses and bans. -/
theorem Consistent.remove (h : s.Consistent) (hPeers : ∀ peer ∈ peers, peer ∈ s.manager.peers)
    (hIps : ∀ peer ip, peerIps.lookup peer = some ip → s.manager.peerIps.lookup peer = some ip)
    (hBans : ∀ peer ∈ peers, ∀ r,
      banned.lookup peer = some r → s.manager.banned.lookup peer = some r)
    (hConnected : ∀ peer ∈ peerIps, peer ∈ peers) :
    Consistent ⟨s.clock + wait, { s.manager with
      peers := peers, banned := banned, peerIps := peerIps }⟩ := by
  have hSub : peers.keys ⊆ s.manager.peers.keys := by
    intro peer hMem
    rw [Finmap.mem_keys] at hMem ⊢
    exact hPeers peer hMem
  refine ⟨hConnected, fun peer hMem => ?_, (Finset.card_le_card hSub).trans h.room, fun ip => ?_⟩
  · exact isBanned_later (h.notBanned peer (hPeers peer hMem)) (hBans peer hMem)
  · refine (Finset.card_le_card fun peer hMem => ?_).trans (h.perIp ip)
    rw [Finset.mem_filter] at hMem ⊢
    exact ⟨hSub hMem.1, hIps peer ip hMem.2⟩

theorem mem_enter {m : PeerManager PeerId} :
    other ∈ m.enter now peer ↔ other = peer ∨ other ∈ m.peers := by
  unfold PeerManager.enter
  split
  next hLookup =>
    refine ⟨.inr, ?_⟩
    rintro (rfl | hMem)
    · exact Finmap.mem_of_lookup_eq_some hLookup
    · exact hMem
  next => exact Finmap.mem_insert

/-- A call that connects a peer. -/
theorem Consistent.connect (h : s.Consistent)
    (hBan : s.manager.isBanned (s.clock + wait) peer = false)
    (hRoom : s.manager.peers.keys.card < s.manager.maxPeers)
    (hConnected : ∀ other ∈ peerIps, other = peer ∨ other ∈ s.manager.peerIps)
    (hPerIp : ∀ ip, (peerIps.keys.filter fun peer => peerIps.lookup peer = some ip).card ≤
      s.manager.maxPeersPerIp) :
    Consistent ⟨s.clock + wait, { s.manager with
      peers := s.manager.enter (s.clock + wait) peer, peerIps := peerIps }⟩ := by
  have hIps : ∀ other ∈ peerIps, other ∈ s.manager.enter (s.clock + wait) peer :=
    fun other hMem => mem_enter.mpr ((hConnected other hMem).imp_right (h.connected other))
  have hKeys : (s.manager.enter (s.clock + wait) peer).keys =
      insert peer s.manager.peers.keys := by
    ext other
    rw [Finmap.mem_keys, mem_enter, Finset.mem_insert, Finmap.mem_keys]
  refine ⟨hIps, fun other hMem => ?_, ?_, fun ip => ?_⟩
  · rcases mem_enter.mp hMem with rfl | hOld
    · exact hBan
    · exact isBanned_later (h.notBanned other hOld) fun r hr => hr
  · show (s.manager.enter (s.clock + wait) peer).keys.card ≤ _
    rw [hKeys]
    exact (Finset.card_insert_le _ _).trans hRoom
  · show (Finset.filter _ (s.manager.enter (s.clock + wait) peer).keys).card ≤ _
    rw [filter_keys_eq hIps]
    exact hPerIp ip

theorem Consistent.card_fromIp (h : s.Consistent) (ip : String) :
    (s.manager.fromIp ip).card ≤ s.manager.maxPeersPerIp := by
  have hIp := h.perIp ip
  rwa [filter_keys_eq h.connected] at hIp

theorem lookup_of_erase {V : Type} {table : Finmap fun _ : PeerId => V} {v : V}
    (h : (table.erase peer).lookup other = some v) : table.lookup other = some v := by
  by_cases hEq : other = peer
  · rw [hEq, Finmap.lookup_erase] at h
    cases h
  · rwa [Finmap.lookup_erase_ne hEq] at h

theorem lookup_of_cleaned {expired : Multiset PeerId} {record : BanRecord PeerId}
    (h : (expired.foldl (fun banned peer => banned.erase peer) banned).lookup peer =
      some record) : banned.lookup peer = some record := by
  induction expired using Multiset.induction_on generalizing banned with
  | empty => exact h
  | cons other expired ih =>
      rw [Multiset.foldl_cons] at h
      exact lookup_of_erase (ih h)

theorem lookup_insert_other {record record' : BanRecord PeerId} (hMem : other ∈ peers.erase peer)
    (h : (banned.insert peer record).lookup other = some record') :
    banned.lookup other = some record' := by
  rwa [Finmap.lookup_insert_of_ne _ (Finmap.mem_erase.mp hMem).1] at h

/-- A call that updates what is kept of a connected peer. -/
theorem Consistent.update (h : s.Consistent) {info info' : PeerInfo}
    (hPeer : s.manager.peers.lookup peer = some info) :
    Consistent ⟨s.clock + wait, { s.manager with
      peers := s.manager.peers.insert peer info' }⟩ := by
  have hMem (other : PeerId) :
      other ∈ s.manager.peers.insert peer info' ↔ other ∈ s.manager.peers := by
    rw [Finmap.mem_insert, or_iff_right_of_imp]
    rintro rfl
    exact Finmap.mem_of_lookup_eq_some hPeer
  exact h.remove (fun other => (hMem other).mp) (fun _ _ hIp => hIp) (fun _ _ _ hr => hr)
    fun other hIp => (hMem other).mpr (h.connected other hIp)

/-- A ban for the score leaves the tables consistent exactly if the peer has no recorded
address. -/
theorem consistent_recordBadMessage_iff (h : s.Consistent) (peer : PeerId) :
    (s.step (wait, .recordBadMessage peer)).Consistent ↔
      AddressFree s (wait, .recordBadMessage peer) := by
  unfold step PeerManager.call PeerManager.recordBadMessage AddressFree
  dsimp only
  cases hPeer : s.manager.peers.lookup peer with
  | none =>
      refine iff_of_true ?_ fun other info hEq hInfo => ?_
      · exact h.remove (fun _ hMem => hMem) (fun _ _ hIp => hIp) (fun _ _ _ hr => hr) h.connected
      · cases hEq
        rw [hPeer] at hInfo
        cases hInfo
  | some info =>
      have hScore : saturatingAddI32 info.score badMessagePenalty ≤ banThreshold ↔
          info.score + badMessagePenalty ≤ banThreshold := by
        simp only [saturatingAddI32, banThreshold, badMessagePenalty]
        omega
      dsimp only
      by_cases hBan : info.score + badMessagePenalty ≤ banThreshold
      · rw [if_pos (hScore.mpr hBan)]
        constructor
        · intro hNext other info' hEq _ _ hIp
          cases hEq
          exact Finmap.notMem_erase_self (hNext.connected peer hIp)
        · intro hFree
          refine h.remove (fun other hMem => (Finmap.mem_erase.mp hMem).2) (fun _ _ hIp => hIp)
            (fun other hMem r hr => lookup_insert_other hMem hr) fun other hIp => ?_
          refine Finmap.mem_erase.mpr ⟨?_, h.connected other hIp⟩
          rintro rfl
          exact hFree other info rfl hPeer hBan hIp
      · rw [if_neg fun hLow => hBan (hScore.mp hLow)]
        refine iff_of_true (h.update hPeer) fun other info' hEq hInfo hLow => ?_
        cases hEq
        rw [hPeer] at hInfo
        cases hInfo
        exact absurd hLow hBan

theorem Consistent.connectWithIp (h : s.Consistent) (peer : PeerId) (ip : String) :
    (s.step (wait, .onPeerConnectedWithIp peer ip)).Consistent := by
  have hSame : Consistent ⟨s.clock + wait, s.manager⟩ :=
    h.remove (fun _ hMem => hMem) (fun _ _ hIp => hIp) (fun _ _ _ hr => hr) h.connected
  unfold step PeerManager.call PeerManager.onPeerConnectedWithIp
  dsimp only
  split
  · exact hSame
  next hBan =>
    split
    · exact hSame
    next hRoom =>
      split
      · exact hSame
      next hFull =>
        refine h.connect (Bool.not_eq_true _ ▸ hBan) (Nat.lt_of_not_le hRoom)
          (fun other hMem => Finmap.mem_insert.mp hMem) fun ip' => ?_
        have hNew : (Finset.filter (fun other => (s.manager.peerIps.insert peer ip).lookup other =
            some ip') (s.manager.peerIps.insert peer ip).keys) ⊆
            if ip' = ip then insert peer (s.manager.fromIp ip) else s.manager.fromIp ip' := by
          intro other hMem
          rw [Finset.mem_filter, Finmap.mem_keys] at hMem
          by_cases hEq : other = peer
          · subst hEq
            rw [Finmap.lookup_insert] at hMem
            rw [if_pos (Option.some.inj hMem.2).symm]
            exact Finset.mem_insert_self _ _
          · rw [Finmap.lookup_insert_of_ne _ hEq] at hMem
            have hOld : other ∈ s.manager.fromIp ip' := by
              rw [PeerManager.fromIp, Finset.mem_filter, Finmap.mem_keys]
              exact ⟨Finmap.mem_of_lookup_eq_some hMem.2, hMem.2⟩
            split
            next hIp => exact Finset.mem_insert_of_mem (hIp ▸ hOld)
            next => exact hOld
        refine (Finset.card_le_card hNew).trans ?_
        split
        · exact (Finset.card_insert_le _ _).trans (Nat.lt_of_not_le hFull)
        · exact h.card_fromIp ip'

/-- A call keeps the tables consistent exactly if it does not ban a peer for its score that has a
recorded address. -/
theorem consistent_step_iff (h : s.Consistent) (c : Nat × PeerCall PeerId) :
    (s.step c).Consistent ↔ AddressFree s c := by
  obtain ⟨wait, c⟩ := c
  have hSame : Consistent ⟨s.clock + wait, s.manager⟩ :=
    h.remove (fun _ hMem => hMem) (fun _ _ hIp => hIp) (fun _ _ _ hr => hr) h.connected
  have hErase (peer other : PeerId) (hIp : other ∈ s.manager.peerIps.erase peer) :
      other ∈ s.manager.peers.erase peer := by
    rw [Finmap.mem_erase] at hIp ⊢
    exact ⟨hIp.1, h.connected other hIp.2⟩
  have hOther {c : PeerCall PeerId} (hc : ∀ peer, c ≠ .recordBadMessage peer) :
      AddressFree s (wait, c) := fun peer _ hEq => absurd hEq (hc peer)
  cases c with
  | recordBadMessage peer => exact consistent_recordBadMessage_iff h peer
  | onPeerConnectedWithIp peer ip =>
      exact iff_of_true (h.connectWithIp peer ip) (hOther (by simp))
  | onPeerConnected peer =>
      refine iff_of_true ?_ (hOther (by simp))
      unfold step PeerManager.call PeerManager.onPeerConnected
      dsimp only
      split
      · exact hSame
      next hBan =>
        split
        · exact hSame
        next hRoom =>
          exact h.connect (Bool.not_eq_true _ ▸ hBan) (Nat.lt_of_not_le hRoom)
            (fun _ hMem => .inr hMem) h.card_fromIp
  | onPeerDisconnected peer =>
      refine iff_of_true ?_ (hOther (by simp))
      exact h.remove (fun _ hMem => (Finmap.mem_erase.mp hMem).2)
        (fun _ _ hIp => lookup_of_erase hIp) (fun _ _ _ hr => hr) (hErase peer)
  | recordGoodMessage peer =>
      refine iff_of_true ?_ (hOther (by simp))
      unfold step PeerManager.call PeerManager.recordGoodMessage
      dsimp only
      split
      next hPeer => exact h.update hPeer
      next => exact hSame
  | banPeer peer reason duration =>
      refine iff_of_true ?_ (hOther (by simp))
      exact h.remove (fun _ hMem => (Finmap.mem_erase.mp hMem).2)
        (fun _ _ hIp => lookup_of_erase hIp) (fun _ hMem _ hr => lookup_insert_other hMem hr)
        (hErase peer)
  | cleanupExpiredBans =>
      refine iff_of_true ?_ (hOther (by simp))
      exact h.remove (fun _ hMem => hMem) (fun _ _ hIp => hIp)
        (fun _ _ _ hr => lookup_of_cleaned hr) h.connected

end PeerRun

/-- The tables are consistent in every state of a run exactly if no bad message takes a peer with
a recorded address to the ban threshold. -/
theorem consistent_throughout_iff (clock maxPeers : Nat) (calls : List (Nat × PeerCall PeerId)) :
    (∀ calls', calls' <+: calls →
        (after PeerRun.step ⟨clock, .new maxPeers⟩ calls').Consistent) ↔
      Along PeerRun.step PeerRun.AddressFree ⟨clock, .new maxPeers⟩ calls := by
  have hStart : PeerRun.Consistent (⟨clock, .new maxPeers⟩ : PeerRun PeerId) :=
    ⟨fun _ hMem => absurd hMem Finmap.notMem_empty, fun _ hMem => absurd hMem Finmap.notMem_empty,
      Nat.zero_le _, fun _ => Nat.zero_le _⟩
  exact throughout_iff_along (I := fun _ => True) (Q := PeerRun.Consistent) (fun _ _ _ => trivial)
    (fun s c _ h => PeerRun.consistent_step_iff h c) trivial hStart

/-- Ten invalid messages of a peer: it is no longer connected, but its address is taken. -/
theorem address_kept_after_ban :
    ¬ (after PeerRun.step ⟨0, .new 50⟩ ((0, PeerCall.onPeerConnectedWithIp () "10.0.0.1") ::
      List.replicate 10 (1, .recordBadMessage ()))).Consistent := by
  intro h
  have hConnected := h.connected () (by decide +kernel)
  revert hConnected
  decide +kernel

end Polay.Network
