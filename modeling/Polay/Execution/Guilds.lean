import Polay.Lib.Total
import Polay.Execution.Calls
import Polay.Execution.Creation

/-!
# Guilds

A guild counts its members, and every member has a record and a marker in an index. `GuildChange`
says what a transaction can do to the records of guilds: it writes one guild and one membership.
-/

namespace Polay.Execution

open Lib Lib.Machine Lib.Trace Polay.Types State

variable {sha256 : List UInt8 → Hash} {ex : Executor} {s t : StateStore}

/-! ## The records of guilds -/

/-- The families of the records of guilds. -/
def guildFamilies : List Family := [.guild, .guildMember]

/-- Whether the index of a member lists a guild. -/
def indexed (s : StateStore) (id : Hash) (a : Address) : Bool :=
  (s.get? (.memberGuilds a id)).isSome

theorem files_guildMember (m : GuildMembership) : (Key.guildMember m.guildId m.member).Files m :=
  ⟨rfl, rfl⟩

/-- The store with a membership and its marker written. -/
def withMembership (s : StateStore) (m : GuildMembership) : StateStore :=
  (s.insert (.guildMember m.guildId m.member) ⟨m, files_guildMember m⟩).insert
    (.memberGuilds m.member m.guildId) ⟨true, trivial⟩

/-- The store with a membership and its marker deleted. -/
def withoutMembership (s : StateStore) (id : Hash) (a : Address) : StateStore :=
  (s.erase (.guildMember id a)).erase (.memberGuilds a id)

/-- From `s` to `t` the record of one guild and one membership of it are written or deleted, the
membership with its marker. -/
structure GuildWrite (id : Hash) (guild : Option Guild) (x : Address)
    (member : Option GuildMembership) (s t : StateStore) : Prop where
  guilds : ∀ i, guildOf t i = if i = id then guild else guildOf s i
  members : ∀ i a, membershipOf t i a = if i = id ∧ a = x then member else membershipOf s i a
  index : ∀ i a, indexed t i a = if i = id ∧ a = x then member.isSome else indexed s i a

section Writes

variable {id : Hash} {guild : Option Guild} {x : Address} {member : Option GuildMembership}

theorem guildOf_of_sameOn (h : SameOn guildFamilies s t) (i : Hash) :
    guildOf t i = guildOf s i := by
  rw [guildOf, h (.guild i) (by simp [familyOf, guildFamilies]), guildOf]

theorem membershipOf_of_sameOn (h : SameOn guildFamilies s t) (i : Hash) (a : Address) :
    membershipOf t i a = membershipOf s i a := by
  rw [membershipOf, h (.guildMember i a) (by simp [familyOf, guildFamilies]), membershipOf]

theorem indexed_of_sameOn (h : SameOn guildFamilies s t) (i : Hash) (a : Address) :
    indexed t i a = indexed s i a := by
  rw [indexed, h (.memberGuilds a i) (by simp [familyOf, guildFamilies]), indexed]

theorem GuildWrite.congr {s₁ t₁ : StateStore} (h : GuildWrite id guild x member s₁ t₁)
    (hs : SameOn guildFamilies s s₁) (ht : SameOn guildFamilies t₁ t) :
    GuildWrite id guild x member s t := by
  refine ⟨fun i => ?_, fun i a => ?_, fun i a => ?_⟩
  · rw [guildOf_of_sameOn ht, h.guilds, guildOf_of_sameOn hs]
  · rw [membershipOf_of_sameOn ht, h.members, membershipOf_of_sameOn hs]
  · rw [indexed_of_sameOn ht, h.index, indexed_of_sameOn hs]

theorem id_of_membershipOf {i : Hash} {a : Address} {m : GuildMembership}
    (h : membershipOf s i a = some m) : m.guildId = i ∧ m.member = a := by
  obtain ⟨r, _, rfl⟩ := Option.map_eq_some_iff.mp h
  exact r.property

theorem guildOf_withGuild (s : StateStore) (g : Guild) (i : Hash) :
    guildOf (withGuild s g) i = if i = g.guildId then some g else guildOf s i :=
  Store.read_insert s (.guild i) (Option.map (·.val)) (by simp [eq_comm]) (by rintro ⟨⟩; rfl)

theorem membershipOf_withGuild (s : StateStore) (g : Guild) (i : Hash) (a : Address) :
    membershipOf (withGuild s g) i a = membershipOf s i a := by
  rw [membershipOf, withGuild, Store.get?_insert_ne (by simp), membershipOf]

theorem indexed_withGuild (s : StateStore) (g : Guild) (i : Hash) (a : Address) :
    indexed (withGuild s g) i a = indexed s i a := by
  rw [indexed, withGuild, Store.get?_insert_ne (by simp), indexed]

theorem guildOf_withMembership (s : StateStore) (m : GuildMembership) (i : Hash) :
    guildOf (withMembership s m) i = guildOf s i := by
  rw [guildOf, withMembership, Store.get?_insert_ne (by simp), Store.get?_insert_ne (by simp),
    guildOf]

theorem membershipOf_withMembership (s : StateStore) (m : GuildMembership) (i : Hash)
    (a : Address) :
    membershipOf (withMembership s m) i a =
      if i = m.guildId ∧ a = m.member then some m else membershipOf s i a := by
  rw [membershipOf, withMembership, Store.get?_insert_ne (by simp)]
  exact Store.read_insert s (.guildMember i a) (Option.map (·.val)) (by simp [eq_comm])
    (by rintro ⟨⟩; rfl)

theorem indexed_withMembership (s : StateStore) (m : GuildMembership) (i : Hash) (a : Address) :
    indexed (withMembership s m) i a =
      if i = m.guildId ∧ a = m.member then true else indexed s i a := by
  have hSame : (s.insert (.guildMember m.guildId m.member) ⟨m, files_guildMember m⟩).get?
      (.memberGuilds a i) = s.get? (.memberGuilds a i) := Store.get?_insert_ne (by simp)
  rw [indexed, indexed, ← hSame]
  exact Store.read_insert (s.insert _ _) (.memberGuilds a i) Option.isSome
    (by simp [eq_comm, and_comm]) fun _ => rfl

theorem guildOf_withoutMembership (s : StateStore) (id : Hash) (x : Address) (i : Hash) :
    guildOf (withoutMembership s id x) i = guildOf s i := by
  rw [guildOf, withoutMembership, Store.get?_erase_ne (by simp), Store.get?_erase_ne (by simp),
    guildOf]

theorem membershipOf_withoutMembership (s : StateStore) (id : Hash) (x : Address) (i : Hash)
    (a : Address) :
    membershipOf (withoutMembership s id x) i a =
      if i = id ∧ a = x then none else membershipOf s i a := by
  rw [membershipOf, withoutMembership, Store.get?_erase_ne (by simp)]
  exact Store.read_erase s (.guildMember i a) (Option.map (·.val)) (by simp [eq_comm])

theorem indexed_withoutMembership (s : StateStore) (id : Hash) (x : Address) (i : Hash)
    (a : Address) :
    indexed (withoutMembership s id x) i a = if i = id ∧ a = x then false else indexed s i a := by
  have hSame : (s.erase (.guildMember id x)).get? (.memberGuilds a i) =
      s.get? (.memberGuilds a i) := Store.get?_erase_ne (by simp)
  rw [indexed, indexed, ← hSame]
  exact Store.read_erase (s.erase _) (.memberGuilds a i) Option.isSome (by simp [eq_comm, and_comm])

theorem guildWrite_put {g : Guild} {m : GuildMembership} (hGuild : g.guildId = id)
    (hId : m.guildId = id) (hMember : m.member = x) (s : StateStore) :
    GuildWrite id (some g) x (some m) s (withMembership (withGuild s g) m) := by
  subst hId hMember
  refine ⟨fun i => ?_, fun i a => ?_, fun i a => ?_⟩
  · rw [guildOf_withMembership, guildOf_withGuild, hGuild]
  · rw [membershipOf_withMembership, membershipOf_withGuild]
  · rw [indexed_withMembership, indexed_withGuild]
    rfl

theorem guildWrite_member (m : GuildMembership) (s : StateStore) :
    GuildWrite m.guildId (guildOf s m.guildId) m.member (some m) s (withMembership s m) := by
  refine ⟨fun i => ?_, fun i a => ?_, fun i a => ?_⟩
  · rw [guildOf_withMembership]
    split
    · rename_i hEq
      rw [hEq]
    · rfl
  · rw [membershipOf_withMembership]
  · rw [indexed_withMembership]
    rfl

theorem guildWrite_without (g : Guild) (x : Address) (s : StateStore) :
    GuildWrite g.guildId (some g) x none s (withGuild (withoutMembership s g.guildId x) g) := by
  refine ⟨fun i => ?_, fun i a => ?_, fun i a => ?_⟩
  · rw [guildOf_withGuild, guildOf_withoutMembership]
  · rw [membershipOf_withGuild, membershipOf_withoutMembership]
  · rw [indexed_withGuild, indexed_withoutMembership]
    rfl

theorem guildWrite_delete (id : Hash) (x : Address) (s : StateStore) :
    GuildWrite id none x none s ((withoutMembership s id x).erase (.guild id)) := by
  refine ⟨fun i => ?_, fun i a => ?_, fun i a => ?_⟩
  · rw [← guildOf_withoutMembership s id x]
    exact Store.read_erase (withoutMembership s id x) (.guild i) (Option.map (·.val))
      (by simp [eq_comm])
  · rw [membershipOf, Store.get?_erase_ne (by simp), ← membershipOf,
      membershipOf_withoutMembership]
  · rw [indexed, Store.get?_erase_ne (by simp), ← indexed, indexed_withoutMembership]
    rfl

end Writes

/-! ## What a transaction does to guilds -/

variable {action : TransactionAction}

/-- Whether an action is about guilds. -/
def guildAction : TransactionAction → Bool
  | .createGuild .. | .joinGuild .. | .leaveGuild .. | .guildDeposit .. | .guildWithdraw ..
  | .guildPromote .. | .guildKick .. => true
  | _ => false

theorem guildFamilies_apart (h : guildAction action = false) :
    ∀ f ∈ guildFamilies, f ∉ writtenBy action := by
  cases action <;> simp_all [guildAction, guildFamilies, writtenBy]

/-- The guild and the membership a successful action writes or deletes. -/
inductive GuildChange (new : Hash → Prop) (signer : Address) (s : StateStore) :
    TransactionAction → Hash → Option Guild → Address → Option GuildMembership → Prop
  | create (name description : String) (maxMembers : UInt32) (g : Guild) (m : GuildMembership)
      (hNew : new g.guildId) (hLeader : g.leader = signer) (hTreasury : g.treasuryBalance = 0)
      (hCount : g.memberCount = 1) (hRole : m.role = .leader) :
      GuildChange new signer s (.createGuild name description maxMembers) g.guildId (some g)
        signer (some m)
  | join (id : Hash) (g : Guild) (height : UInt64) (hGuild : guildOf s id = some g)
      (hNone : membershipOf s id signer = none) (hRoom : g.memberCount < g.maxMembers) :
      GuildChange new signer s (.joinGuild id) id
        (some { g with memberCount := g.memberCount + 1 }) signer
        (some ⟨id, signer, .member, height⟩)
  | leave (id : Hash) (g : Guild) (m : GuildMembership) (hGuild : guildOf s id = some g)
      (hMember : membershipOf s id signer = some m) (hRole : m.role ≠ .leader) :
      GuildChange new signer s (.leaveGuild id) id
        (if g.memberCount - 1 = 0 then none
          else some { g with memberCount := g.memberCount - 1 }) signer none
  | promote (id : Hash) (g : Guild) (x : Address) (role : String) (m m' : GuildMembership)
      (newRole : GuildRole) (hGuild : guildOf s id = some g)
      (hSigner : membershipOf s id signer = some m) (hLeader : m.role = .leader)
      (hMember : membershipOf s id x = some m') (hRole : newRole ≠ .leader) :
      GuildChange new signer s (.guildPromote id x role) id (some g) x
        (some { m' with role := newRole })
  | kick (id : Hash) (g : Guild) (x : Address) (m m' : GuildMembership)
      (hGuild : guildOf s id = some g) (hSigner : membershipOf s id signer = some m)
      (hMember : membershipOf s id x = some m') (hRole : m'.role ≠ .leader) (hNe : x ≠ signer) :
      GuildChange new signer s (.guildKick id x) id
        (some { g with memberCount := g.memberCount - 1 }) x none

/-- What a transaction does to guilds. -/
inductive GuildEffect (new : Hash → Prop) (action : TransactionAction) (signer : Address)
    (s t : StateStore) : Bool → Prop
  | kept {b : Bool} (hKept : b = true → guildAction action = false)
      (h : SameOn guildFamilies s t) : GuildEffect new action signer s t b
  | changed {id : Hash} {guild : Option Guild} {x : Address} {member : Option GuildMembership}
      (hChange : GuildChange new signer s action id guild x member)
      (h : GuildWrite id guild x member s t) : GuildEffect new action signer s t true
  | deposited (id : Hash) (amount : UInt64) (g : Guild) (hAction : action = .guildDeposit id amount)
      (hGuild : guildOf s id = some g)
      (h : SameOn guildFamilies
        (withGuild s { g with treasuryBalance := g.treasuryBalance + amount }) t) :
      GuildEffect new action signer s t true
  | withdrew (id : Hash) (amount : UInt64) (g : Guild)
      (hAction : action = .guildWithdraw id amount) (hGuild : guildOf s id = some g)
      (hEnough : amount ≤ g.treasuryBalance)
      (h : SameOn guildFamilies
        (withGuild s { g with treasuryBalance := g.treasuryBalance - amount }) t) :
      GuildEffect new action signer s t true

theorem GuildChange.congr {new : Hash → Prop} {signer x : Address} {s₁ : StateStore} {id : Hash}
    {guild : Option Guild} {member : Option GuildMembership}
    (h : GuildChange new signer s₁ action id guild x member) (hs : SameOn guildFamilies s s₁) :
    GuildChange new signer s action id guild x member := by
  have hGuilds := guildOf_of_sameOn hs
  have hMembers := membershipOf_of_sameOn hs
  cases h with
  | create name description maxMembers g m hNew hLeader hTreasury hCount hRole =>
      exact .create name description maxMembers g m hNew hLeader hTreasury hCount hRole
  | join _ g height hGuild hNone hRoom =>
      exact .join id g height (hGuilds id ▸ hGuild) (hMembers id signer ▸ hNone) hRoom
  | leave _ g m hGuild hMember hRole =>
      exact .leave id g m (hGuilds id ▸ hGuild) (hMembers id signer ▸ hMember) hRole
  | promote _ g _ role m m' newRole hGuild hSigner hLeader hMember hRole =>
      exact .promote id g x role m m' newRole (hGuilds id ▸ hGuild) (hMembers id signer ▸ hSigner)
        hLeader (hMembers id x ▸ hMember) hRole
  | kick _ g _ m m' hGuild hSigner hMember hRole hNe =>
      exact .kick id g x m m' (hGuilds id ▸ hGuild) (hMembers id signer ▸ hSigner)
        (hMembers id x ▸ hMember) hRole hNe

theorem GuildEffect.congr {new : Hash → Prop} {signer : Address} {s₁ t₁ : StateStore} {b : Bool}
    (h : GuildEffect new action signer s₁ t₁ b) (hs : SameOn guildFamilies s s₁)
    (ht : SameOn guildFamilies t₁ t) : GuildEffect new action signer s t b := by
  cases h with
  | kept hKept h => exact .kept hKept (hs.trans (h.trans ht))
  | changed hChange h => exact .changed (hChange.congr hs) (h.congr hs ht)
  | deposited id amount g hAction hGuild h =>
      exact .deposited id amount g hAction (guildOf_of_sameOn hs id ▸ hGuild)
        ((hs.insert _ _).trans (h.trans ht))
  | withdrew id amount g hAction hGuild hEnough h =>
      exact .withdrew id amount g hAction (guildOf_of_sameOn hs id ▸ hGuild) hEnough
        ((hs.insert _ _).trans (h.trans ht))

section Handlers

variable {β : Type} {Q : Outcome ExecutionError β → StateStore → Prop}
variable {f : Unit → Handler β}

theorem wp_setGuildMembership_bind {m : GuildMembership} :
    ((setGuildMembership m).bind f).Wp Q s ↔ (f ()).Wp Q (withMembership s m) := Iff.rfl

theorem wp_deleteGuildMembership_bind {id : Hash} {a : Address} :
    ((deleteGuildMembership id a).bind f).Wp Q s ↔ (f ()).Wp Q (withoutMembership s id a) :=
  Iff.rfl

theorem wp_storeOrDeleteGuild_bind {id : Hash} {g : Guild} :
    ((Guilds.storeOrDeleteGuild id g).bind f).Wp Q s ↔
      (f ()).Wp Q (if g.memberCount = 0 then s.erase (.guild id) else withGuild s g) := by
  unfold Guilds.storeOrDeleteGuild
  split <;> exact Iff.rfl

variable {new : Hash → Prop} {signer : Address}

/-- How a handler of guilds ends: with the effect of its action, or without one. -/
def GuildEnd {α : Type} (new : Hash → Prop) (action : TransactionAction) (signer : Address)
    (s : StateStore) (o : Outcome ExecutionError α) (t : StateStore) : Prop :=
  GuildEffect new action signer s t o.toOption.isSome

theorem guildEnd_err {α : Type} {action : TransactionAction} {e : ExecutionError} :
    GuildEnd new action signer s (.err e : Outcome ExecutionError α) s :=
  .kept (fun h => by cases h) (.refl _ s)

theorem createGuild_wp (s : StateStore) (name description : String) (maxMembers : UInt32)
    (timestamp : UInt64)
    (hNew : new (sha256 (Creation.message (.guild signer name timestamp)))) :
    (Guilds.executeCreateGuild sha256 signer name description maxMembers timestamp).Wp
      (GuildEnd new (.createGuild name description maxMembers) signer s) s := by
  simp only [Guilds.executeCreateGuild, Prog.bind_eq, wp_setGuild_bind, wp_setGuildMembership_bind]
  let id := sha256 (Creation.message (.guild signer name timestamp))
  refine .changed (.create name description maxMembers
    ⟨id, name, description, signer, 0, 1, maxMembers, timestamp⟩ ⟨id, signer, .leader, timestamp⟩
    hNew rfl rfl rfl rfl) ?_
  exact guildWrite_put (m := ⟨id, signer, .leader, timestamp⟩) rfl rfl rfl s

theorem joinGuild_wp (s : StateStore) (id : Hash) (height : UInt64) :
    (Guilds.executeJoinGuild signer id height).Wp (GuildEnd new (.joinGuild id) signer s) s := by
  simp only [Guilds.executeJoinGuild, Prog.bind_eq, wp_getGuild_bind, Prog.wp_require_bind,
    wp_getGuildMembership_bind, Prog.wp_ensure_bind, wp_setGuild_bind, wp_setGuildMembership_bind]
  refine ⟨fun _ => guildEnd_err, fun g hg => ⟨fun _ => guildEnd_err, fun hNone =>
    ⟨fun _ => guildEnd_err, fun hRoom => ?_⟩⟩⟩
  refine .changed (.join id g height hg (Option.isNone_iff_eq_none.mp hNone)
    (UInt32.not_le.mp hRoom)) ?_
  have hId : g.guildId = id := id_of_guildOf hg
  exact guildWrite_put (g := { g with memberCount := g.memberCount + 1 })
    (m := ⟨id, signer, .member, height⟩) hId rfl rfl s

theorem leaveGuild_wp (s : StateStore) (id : Hash) :
    (Guilds.executeLeaveGuild signer id).Wp (GuildEnd new (.leaveGuild id) signer s) s := by
  simp only [Guilds.executeLeaveGuild, Prog.bind_eq, wp_getGuild_bind, Prog.wp_require_bind,
    wp_getGuildMembership_bind, Prog.wp_ensure_bind, wp_deleteGuildMembership_bind,
    wp_storeOrDeleteGuild_bind]
  refine ⟨fun _ => guildEnd_err, fun g hg => ⟨fun _ => guildEnd_err, fun m hm =>
    ⟨fun _ => guildEnd_err, fun hRole => ?_⟩⟩⟩
  refine .changed (.leave id g m hg hm hRole) ?_
  obtain rfl := id_of_guildOf hg
  split
  · exact guildWrite_delete g.guildId signer s
  · exact guildWrite_without { g with memberCount := g.memberCount - 1 } signer s

theorem guildDeposit_wp (s : StateStore) (id : Hash) (amount : UInt64) :
    (Guilds.executeGuildDeposit signer id amount).Wp
      (GuildEnd new (.guildDeposit id amount) signer s) s := by
  simp only [Guilds.executeGuildDeposit, Prog.bind_eq, wp_getGuild_bind, Prog.wp_require_bind,
    wp_getGuildMembership_bind, Prog.wp_ensure_bind, wp_loadAccount_bind, wp_debited_bind,
    wp_setAccount_bind, wp_setGuild_bind]
  refine ⟨fun _ => guildEnd_err, fun g hg => ⟨fun _ => guildEnd_err, fun _ =>
    ⟨fun _ => guildEnd_err, fun x hx => ⟨fun _ => guildEnd_err, fun _ => ?_⟩⟩⟩⟩
  refine .deposited id amount g rfl hg (SameOn.insert ?_ _ _)
  exact sameOn_insert (by simp [familyOf, guildFamilies]) s _

theorem guildWithdraw_wp (s : StateStore) (id : Hash) (amount : UInt64) :
    (Guilds.executeGuildWithdraw signer id amount).Wp
      (GuildEnd new (.guildWithdraw id amount) signer s) s := by
  simp only [Guilds.executeGuildWithdraw, Prog.bind_eq, wp_getGuild_bind, Prog.wp_require_bind,
    wp_getGuildMembership_bind, Prog.wp_ensure_bind, wp_loadAccount_bind, wp_setAccount_bind,
    wp_setGuild_bind]
  refine ⟨fun _ => guildEnd_err, fun g hg => ⟨fun _ => guildEnd_err, fun m hm =>
    ⟨fun _ => guildEnd_err, fun _ => ⟨fun _ => guildEnd_err, fun hEnough =>
      ⟨fun _ => guildEnd_err, fun x hx => ?_⟩⟩⟩⟩⟩
  refine .withdrew id amount g rfl hg (UInt64.not_lt.mp hEnough) ?_
  exact sameOn_insert (by simp [familyOf, guildFamilies]) _ _

theorem guildPromote_wp (s : StateStore) (id : Hash) (x : Address) (role : String) :
    (Guilds.executeGuildPromote signer id x role).Wp
      (GuildEnd new (.guildPromote id x role) signer s) s := by
  simp only [Guilds.executeGuildPromote, Prog.bind_eq, wp_getGuild_bind, Prog.wp_require_bind,
    wp_getGuildMembership_bind, Prog.wp_ensure_bind, wp_setGuildMembership_bind]
  refine ⟨fun _ => guildEnd_err, fun g hg => ⟨fun _ => guildEnd_err, fun m hm =>
    ⟨fun _ => guildEnd_err, fun hLeader => ⟨fun _ => guildEnd_err, fun m' hm' =>
      ⟨fun _ => guildEnd_err, fun newRole hParse => ?_⟩⟩⟩⟩⟩
  have hRole : newRole ≠ .leader := by
    rintro rfl
    unfold Guilds.parseRole at hParse
    split at hParse
    · cases hParse
    · split at hParse <;> cases hParse
  obtain ⟨rfl, rfl⟩ := id_of_membershipOf hm'
  refine .changed (.promote _ g _ role m m' newRole hg hm hLeader hm' hRole) ?_
  have hWrite := guildWrite_member { m' with role := newRole } s
  rw [hg] at hWrite
  exact hWrite

theorem guildKick_wp (s : StateStore) (id : Hash) (x : Address) :
    (Guilds.executeGuildKick signer id x).Wp (GuildEnd new (.guildKick id x) signer s) s := by
  simp only [Guilds.executeGuildKick, Prog.bind_eq, wp_getGuild_bind, Prog.wp_require_bind,
    wp_getGuildMembership_bind, Prog.wp_ensure_bind, wp_deleteGuildMembership_bind,
    wp_setGuild_bind]
  refine ⟨fun _ => guildEnd_err, fun g hg => ⟨fun _ => guildEnd_err, fun m hm =>
    ⟨fun _ => guildEnd_err, fun hSigner => ⟨fun _ => guildEnd_err, fun m' hm' =>
      ⟨fun _ => guildEnd_err, fun hTarget => ⟨fun _ => guildEnd_err, fun hBoth => ?_⟩⟩⟩⟩⟩⟩
  have hNe : x ≠ signer := by
    rintro rfl
    obtain rfl : m = m' := Option.some.inj (hm.symm.trans hm')
    cases hRole : m.role
    case leader => exact hTarget hRole
    case officer => exact hBoth ⟨hRole, hRole⟩
    case member => exact hSigner hRole
  obtain rfl := id_of_guildOf hg
  exact .changed (.kick g.guildId g x m m' hg hm hm' hTarget hNe)
    (guildWrite_without { g with memberCount := g.memberCount - 1 } x s)

/-- The identifiers of the guilds an action can create. -/
def createsGuild (sha256 : List UInt8 → Hash) (action : TransactionAction) (signer : Address)
    (timestamp : UInt64) (id : Hash) : Prop :=
  ∃ name description maxMembers, action = .createGuild name description maxMembers ∧
    id = sha256 (Creation.message (.guild signer name timestamp))

theorem guildEffect_dispatchAction (sha256 : List UInt8 → Hash) (ex : Executor)
    (action : TransactionAction) (signer : Address) (timestamp height : UInt64) (s : StateStore) :
    (ex.dispatchAction sha256 action signer timestamp height).Wp
      (GuildEnd (createsGuild sha256 action signer timestamp) action signer s) s := by
  -- The executor only repackages the events.
  have hEvents : ∀ {α β : Type} {new : Hash → Prop} {action : TransactionAction} {p : Handler α}
      {f : α → β}, p.Wp (GuildEnd new action signer s) s →
      (p.bind fun a => .pure (f a)).Wp (GuildEnd new action signer s) s :=
    fun {_ _ new action _ _} =>
      (Prog.wp_isSome_bind_pure (R := fun b t => GuildEffect new action signer s t b)).mpr
  by_cases hGuild : guildAction action = false
  · have hKeeps :=
      run_keeps (dispatchAction_keeps sha256 ex action signer timestamp height (s := s))
    exact GuildEffect.kept (fun _ => hGuild) (sameOn_of_keeps hKeeps (guildFamilies_apart hGuild))
  cases action
  case createGuild name description maxMembers =>
    exact hEvents (createGuild_wp s name description maxMembers timestamp
      ⟨name, description, maxMembers, rfl, rfl⟩)
  case joinGuild id => exact hEvents (joinGuild_wp s id height)
  case leaveGuild id => exact hEvents (leaveGuild_wp s id)
  case guildDeposit id amount => exact hEvents (guildDeposit_wp s id amount)
  case guildWithdraw id amount => exact hEvents (guildWithdraw_wp s id amount)
  case guildPromote id x role => exact hEvents (guildPromote_wp s id x role)
  case guildKick id x => exact hEvents (guildKick_wp s id x)
  all_goals exact absurd rfl hGuild

end Handlers

variable {id : Hash}

/-- What a call does to guilds. -/
theorem guildEffect_call (s : StateStore) (c : Call) :
    GuildEffect (createsGuild sha256 c.tx.transaction.action c.tx.transaction.signer
        c.tx.transaction.timestamp) c.tx.transaction.action c.tx.transaction.signer s
      (c.next sha256 ex s) (c.succeeds sha256 ex s) := by
  refine Call.effect (F := guildFamilies) (by simp [feeFamilies, guildFamilies])
    (by simp [guildFamilies]) (R := fun b s t => GuildEffect _ _ _ s t b)
    (.kept (fun h => by cases h) (.refl _ s)) (fun hs h ht => h.congr hs ht) fun s₁ _ => ?_
  exact guildEffect_dispatchAction sha256 ex c.tx.transaction.action c.tx.transaction.signer
    c.tx.transaction.timestamp c.height s₁

/-! ## The members are counted -/

/-- One for every membership of a guild. -/
def memberFigure (id : Hash) : (k : Key) → k.Value → Nat
  | .guildMember i _, _ => if i = id then 1 else 0
  | _, _ => 0

/-- The number of membership records of a guild. -/
def memberTotal (id : Hash) (s : StateStore) : Nat := Store.total (memberFigure id) s

theorem figureAt_memberFigure (s : StateStore) (id : Hash) (a : Address) :
    Store.figureAt (memberFigure id) s (.guildMember id a) =
      if (membershipOf s id a).isSome then 1 else 0 := by
  unfold Store.figureAt membershipOf
  cases s.get? (.guildMember id a) with
  | none => rfl
  | some m => simp [memberFigure]

theorem figureAt_memberFigure_ne {k : Key} (h : ∀ a, k ≠ .guildMember id a) (s : StateStore) :
    Store.figureAt (memberFigure id) s k = 0 := by
  refine Store.figureAt_eq_zero _ fun x => ?_
  cases k
  case guildMember i a =>
    have hNe : i ≠ id := fun hEq => h a (by rw [hEq])
    simp [memberFigure, hNe]
  all_goals rfl

theorem memberTotal_congr (h : ∀ a, (membershipOf t id a).isSome = (membershipOf s id a).isSome) :
    memberTotal id t = memberTotal id s := by
  refine Store.total_congr fun k => ?_
  by_cases hk : ∃ a, k = .guildMember id a
  · obtain ⟨a, rfl⟩ := hk
    rw [figureAt_memberFigure, figureAt_memberFigure, h]
  · have hNe : ∀ a, k ≠ .guildMember id a := fun a hEq => hk ⟨a, hEq⟩
    rw [figureAt_memberFigure_ne hNe, figureAt_memberFigure_ne hNe]

theorem le_memberTotal {a : Address} {m : GuildMembership} (h : membershipOf s id a = some m) :
    1 ≤ memberTotal id s := by
  have hLe := Store.sum_figureAt_le (w := memberFigure id) (s := s)
    (List.nodup_singleton (Key.guildMember id a))
  rw [List.map_singleton, List.sum_singleton, figureAt_memberFigure, h] at hLe
  exact hLe

theorem memberTotal_eq_zero (h : ∀ a, membershipOf s id a = none) : memberTotal id s = 0 := by
  refine Store.total_eq_zero fun k => ?_
  by_cases hk : ∃ a, k = .guildMember id a
  · obtain ⟨a, rfl⟩ := hk
    rw [figureAt_memberFigure, h]
    rfl
  · exact figureAt_memberFigure_ne (fun a hEq => hk ⟨a, hEq⟩) s

/-- A write changes the number of memberships by the membership it writes or deletes. -/
theorem GuildWrite.memberTotal {guild : Option Guild} {x : Address}
    {member : Option GuildMembership} (h : GuildWrite id guild x member s t) :
    memberTotal id t + (if (membershipOf s id x).isSome then 1 else 0) =
      memberTotal id s + (if member.isSome then 1 else 0) := by
  rw [← figureAt_memberFigure]
  cases member with
  | none =>
      have hErase : Execution.memberTotal id t =
          Execution.memberTotal id (withoutMembership s id x) :=
        memberTotal_congr fun a => by rw [h.members, membershipOf_withoutMembership]
      have hTotal := Store.total_erase (memberFigure id) (s := s) (.guildMember id x)
      have hMarker := Store.total_erase (memberFigure id) (s := s.erase (.guildMember id x))
        (.memberGuilds x id)
      rw [figureAt_memberFigure_ne (by simp)] at hMarker
      rw [hErase]
      show Store.total _ ((s.erase _).erase _) + _ = Store.total _ s + 0
      omega
  | some m =>
      have hStored : membershipOf t id x = some m := by rw [h.members, if_pos ⟨rfl, rfl⟩]
      obtain ⟨rfl, rfl⟩ := id_of_membershipOf hStored
      have hInsert : Execution.memberTotal m.guildId t =
          Execution.memberTotal m.guildId (withMembership s m) :=
        memberTotal_congr fun a => by rw [h.members, membershipOf_withMembership]
      have hTotal := Store.total_insert (memberFigure m.guildId) (s := s)
        (.guildMember m.guildId m.member) ⟨m, files_guildMember m⟩
      have hOne : memberFigure m.guildId (.guildMember m.guildId m.member)
          ⟨m, files_guildMember m⟩ = 1 := if_pos rfl
      have hMarker := Store.total_insert_of_zero (w := memberFigure m.guildId)
        (s := s.insert (.guildMember m.guildId m.member) ⟨m, files_guildMember m⟩)
        (k := .memberGuilds m.member m.guildId) (fun _ => rfl) ⟨true, trivial⟩
      rw [hInsert]
      show Store.total _ ((s.insert _ _).insert _ _) + _ = Store.total _ s + 1
      omega

/-- The counts of members, the memberships and the index agree. -/
structure Rostered (s : StateStore) : Prop where
  counted : ∀ id g, guildOf s id = some g → g.memberCount.toNat = memberTotal id s
  bounded : ∀ id g, guildOf s id = some g →
    1 ≤ g.memberCount.toNat ∧ g.memberCount.toNat ≤ max 1 g.maxMembers.toNat
  orphans : ∀ id, guildOf s id = none → ∀ a, membershipOf s id a = none
  index : ∀ id a, indexed s id a = (membershipOf s id a).isSome

section Rostered

variable {new : Hash → Prop} {action : TransactionAction} {signer x : Address} {id : Hash}
  {guild : Option Guild} {member : Option GuildMembership}

theorem Rostered.same (h : Rostered s) (hSame : SameOn guildFamilies s t) : Rostered t := by
  have hGuilds := guildOf_of_sameOn hSame
  have hMembers := membershipOf_of_sameOn hSame
  refine ⟨fun i g hg => ?_, fun i g hg => ?_, fun i hNone a => ?_, fun i a => ?_⟩
  · rw [hGuilds] at hg
    rw [h.counted i g hg, memberTotal_congr fun a => by rw [hMembers]]
  · rw [hGuilds] at hg
    exact h.bounded i g hg
  · rw [hGuilds] at hNone
    rw [hMembers, h.orphans i hNone]
  · rw [indexed_of_sameOn hSame, hMembers, h.index]

/-- A write with the right count. -/
theorem Rostered.write (h : Rostered s) (hWrite : GuildWrite id guild x member s t)
    (hSome : ∀ g, guild = some g → g.memberCount.toNat = memberTotal id t ∧
      1 ≤ g.memberCount.toNat ∧ g.memberCount.toNat ≤ max 1 g.maxMembers.toNat)
    (hNone : guild = none → memberTotal id t = 0) : Rostered t := by
  have hOther : ∀ i, i ≠ id → ∀ a, membershipOf t i a = membershipOf s i a := by
    intro i hNe a
    rw [hWrite.members, if_neg fun hBoth => hNe hBoth.1]
  refine ⟨fun i g hg => ?_, fun i g hg => ?_, fun i hGone a => ?_, fun i a => ?_⟩
  · rw [hWrite.guilds] at hg
    split at hg
    · rename_i hEq
      rw [hEq]
      exact (hSome g hg).1
    · rename_i hNe
      rw [h.counted i g hg, memberTotal_congr fun a => by rw [hOther i hNe]]
  · rw [hWrite.guilds] at hg
    split at hg
    · exact (hSome g hg).2
    · exact h.bounded i g hg
  · rw [hWrite.guilds] at hGone
    split at hGone
    · rename_i hEq
      subst hEq
      cases hMember : membershipOf t i a with
      | none => rfl
      | some m =>
          have hOne := le_memberTotal hMember
          have hZero := hNone hGone
          omega
    · rename_i hNe
      rw [hOther i hNe, h.orphans i hGone]
  · rw [hWrite.index, hWrite.members]
    split
    · rfl
    · exact h.index i a

/-- Without one of its members a guild counts the others. -/
theorem Rostered.without (h : Rostered s) {g : Guild} {m : GuildMembership}
    (hWrite : GuildWrite id guild x none s t) (hGuild : guildOf s id = some g)
    (hMember : membershipOf s id x = some m) :
    (g.memberCount - 1).toNat = memberTotal id t ∧
      memberTotal id t ≤ max 1 g.maxMembers.toNat := by
  have hTotal := hWrite.memberTotal
  rw [hMember] at hTotal
  have hShrunk : memberTotal id t + 1 = memberTotal id s := hTotal
  have hOld := h.counted id g hGuild
  have hBound := h.bounded id g hGuild
  have hLess : (g.memberCount - 1).toNat = g.memberCount.toNat - 1 :=
    UInt32.toNat_sub_of_le _ _ (UInt32.le_iff_toNat_le.mpr hBound.1)
  omega

theorem Rostered.change (h : Rostered s)
    (hChange : GuildChange new signer s action id guild x member)
    (hWrite : GuildWrite id guild x member s t) (hFresh : ∀ id, new id → guildOf s id = none) :
    Rostered t := by
  have hTotal := hWrite.memberTotal
  cases hChange with
  | create name description maxMembers g m hNew hLeader hTreasury hCount hRole =>
      have hEmpty := h.orphans _ (hFresh _ hNew)
      rw [memberTotal_eq_zero hEmpty, hEmpty] at hTotal
      have hOne : g.memberCount.toNat = 1 := by rw [hCount]; rfl
      refine h.write hWrite ?_ fun hNone => by cases hNone
      rintro _ ⟨⟩
      exact ⟨hOne.trans hTotal.symm, by omega, by omega⟩
  | join _ g height hGuild hNone hRoom =>
      rw [hNone] at hTotal
      have hOld := h.counted id g hGuild
      have hLt := g.maxMembers.toNat_lt
      rw [UInt32.lt_iff_toNat_lt] at hRoom
      have hNext : (g.memberCount + 1).toNat = g.memberCount.toNat + 1 := by
        rw [UInt32.toNat_add]
        exact Nat.mod_eq_of_lt (by show _ + 1 < _; omega)
      have hGrown : memberTotal id t = memberTotal id s + 1 := hTotal
      refine h.write hWrite ?_ fun hNone => by cases hNone
      rintro _ ⟨⟩
      show (g.memberCount + 1).toNat = _ ∧ 1 ≤ (g.memberCount + 1).toNat ∧
        (g.memberCount + 1).toNat ≤ max 1 g.maxMembers.toNat
      omega
  | leave _ g m hGuild hMember hRole =>
      obtain ⟨hLess, hRoom⟩ := h.without hWrite hGuild hMember
      have hZero : g.memberCount - 1 = 0 ↔ memberTotal id t = 0 := by
        rw [← UInt32.toNat_inj, hLess]
        rfl
      refine h.write hWrite (fun g' hg' => ?_) fun hNone => ?_
      · split at hg'
        · cases hg'
        · rename_i hPos
          rw [hZero] at hPos
          cases hg'
          show (g.memberCount - 1).toNat = _ ∧ 1 ≤ (g.memberCount - 1).toNat ∧
            (g.memberCount - 1).toNat ≤ max 1 g.maxMembers.toNat
          omega
      · split at hNone
        · exact hZero.mp ‹_›
        · cases hNone
  | promote _ g _ role m m' newRole hGuild hSigner hLeader hMember hRole =>
      rw [hMember] at hTotal
      have hSame : memberTotal id t = memberTotal id s := Nat.add_right_cancel hTotal
      refine h.write hWrite ?_ fun hNone => by cases hNone
      rintro _ ⟨⟩
      exact ⟨hSame ▸ h.counted id g hGuild, h.bounded id g hGuild⟩
  | kick _ g _ m m' hGuild hSigner hMember hRole hNe =>
      -- The signer is still a member.
      have hStays : membershipOf t id signer = some m := by
        rw [hWrite.members, if_neg fun hBoth => hNe hBoth.2.symm, hSigner]
      have hOne := le_memberTotal hStays
      obtain ⟨hLess, hRoom⟩ := h.without hWrite hGuild hMember
      refine h.write hWrite ?_ fun hNone => by cases hNone
      rintro _ ⟨⟩
      show (g.memberCount - 1).toNat = _ ∧ 1 ≤ (g.memberCount - 1).toNat ∧
        (g.memberCount - 1).toNat ≤ max 1 g.maxMembers.toNat
      omega

/-- A guild record with another treasury. -/
theorem Rostered.fund (h : Rostered s) {g : Guild} (hGuild : guildOf s id = some g)
    (balance : UInt64) : Rostered (withGuild s { g with treasuryBalance := balance }) := by
  obtain rfl := id_of_guildOf hGuild
  have hMembers := membershipOf_withGuild s { g with treasuryBalance := balance }
  refine ⟨fun i g' hg' => ?_, fun i g' hg' => ?_, fun i hNone a => ?_, fun i a => ?_⟩
  · have hTotal : memberTotal i (withGuild s { g with treasuryBalance := balance }) =
        memberTotal i s := memberTotal_congr fun a => by rw [hMembers]
    rw [hTotal]
    rw [guildOf_withGuild] at hg'
    split at hg'
    · rename_i hEq
      obtain rfl := Option.some.inj hg'
      obtain rfl : i = g.guildId := hEq
      exact h.counted _ g hGuild
    · exact h.counted i g' hg'
  · rw [guildOf_withGuild] at hg'
    split at hg'
    · obtain rfl := Option.some.inj hg'
      exact h.bounded _ g hGuild
    · exact h.bounded i g' hg'
  · rw [guildOf_withGuild] at hNone
    split at hNone
    · cases hNone
    · rw [hMembers, h.orphans i hNone]
  · rw [indexed_withGuild, hMembers, h.index]

theorem Rostered.effect (h : Rostered s) {b : Bool} (hEffect : GuildEffect new action signer s t b)
    (hFresh : ∀ id, b = true → new id → guildOf s id = none) : Rostered t := by
  cases hEffect with
  | kept _ hSame => exact h.same hSame
  | changed hChange hWrite => exact h.change hChange hWrite fun id => hFresh id rfl
  | deposited _ _ _ _ hGuild hSame | withdrew _ _ _ _ hGuild _ hSame =>
      exact (h.fund hGuild _).same hSame

end Rostered

section Runs

variable (sha256 ex)

/-- A guild is created only under an identifier no guild has. -/
def FreshGuild (s : StateStore) (c : Call) : Prop :=
  ∀ id, c.succeeds sha256 ex s = true →
    createsGuild sha256 c.tx.transaction.action c.tx.transaction.signer
      c.tx.transaction.timestamp id → guildOf s id = none

/-- The store has no record of a guild. -/
def NoGuilds (s : StateStore) : Prop := ∀ k, familyOf k ∈ guildFamilies → s.get? k = none

variable {sha256 ex}

theorem NoGuilds.guildOf (h : NoGuilds s) (id : Hash) : guildOf s id = none := by
  rw [Execution.guildOf, h (.guild id) (by simp [familyOf, guildFamilies])]
  rfl

theorem NoGuilds.membershipOf (h : NoGuilds s) (id : Hash) (a : Address) :
    membershipOf s id a = none := by
  rw [Execution.membershipOf, h (.guildMember id a) (by simp [familyOf, guildFamilies])]
  rfl

theorem NoGuilds.rostered (h : NoGuilds s) : Rostered s := by
  refine ⟨fun i g hg => ?_, fun i g hg => ?_, fun i _ a => h.membershipOf i a, fun i a => ?_⟩
  · rw [h.guildOf] at hg
    cases hg
  · rw [h.guildOf] at hg
    cases hg
  · rw [h.membershipOf, indexed, h (.memberGuilds a i) (by simp [familyOf, guildFamilies])]
    rfl

theorem Rostered.call (h : Rostered s) {c : Call} (hFresh : FreshGuild sha256 ex s c) :
    Rostered (c.next sha256 ex s) :=
  h.effect (guildEffect_call s c) hFresh

/-- The counts of members are exact in every state of every run that begins without guilds and
gives no identifier of a guild twice: every guild counts its membership records, at least one
and no more than it has room for, every membership record is of a guild, and the index lists
the membership records. -/
theorem members_counted {l : List Call} (hStart : NoGuilds s)
    (hFresh : Along (Call.next sha256 ex) (FreshGuild sha256 ex) s l) :
    Rostered (after (Call.next sha256 ex) s l) :=
  hFresh.rule (fun _ _ hRostered hNew => hRostered.call hNew) hStart.rostered

/-- The trader creates a guild, another account joins it and is promoted. -/
def guildRun : List Call :=
  [traderCall 0 (.createGuild "guild" "" 5), otherCall 0 1 (.joinGuild Hash.zero),
    traderCall 1 (.guildPromote Hash.zero (Address.ofByte 2) "officer")]

theorem noGuilds_traderStore : NoGuilds traderStore := by
  intro k hk
  refine get?_traderStore fun a hEq => ?_
  rw [hEq] at hk
  simp [familyOf, guildFamilies] at hk

/-- A call that creates no guild. -/
theorem freshGuild_of_ne {c : Call}
    (h : ∀ name description maxMembers,
      c.tx.transaction.action ≠ .createGuild name description maxMembers) :
    FreshGuild sha256 ex s c :=
  fun _ _ ⟨name, description, maxMembers, hEq, _⟩ => absurd hEq (h name description maxMembers)

theorem noGuilds_tradersStore : NoGuilds tradersStore := by
  intro k hk
  rw [tradersStore, get?_withAccount, noGuilds_traderStore k hk]
  rintro a rfl
  simp [familyOf, guildFamilies] at hk

theorem freshGuild_guildRun :
    Along sampleCall (FreshGuild (fun _ => Hash.zero) Executor.devnet) tradersStore guildRun := by
  refine ⟨fun id _ _ => noGuilds_tradersStore.guildOf id, ?_, ?_, trivial⟩ <;>
    exact freshGuild_of_ne fun _ _ _ => TransactionAction.noConfusion

theorem members_counted_joined :
    Rostered (after sampleCall tradersStore guildRun) ∧
      (guildOf (after sampleCall tradersStore guildRun) Hash.zero).map (·.memberCount) =
        some 2 :=
  ⟨members_counted noGuilds_tradersStore freshGuild_guildRun, by decide +kernel⟩

end Runs

/-! ## The leader -/

/-- Whether an account leads a guild, by its membership record. -/
def Leads (s : StateStore) (id : Hash) (a : Address) : Prop :=
  ∃ m, membershipOf s id a = some m ∧ m.role = .leader

/-- Every guild has one leader, the one it names. -/
def Led (s : StateStore) : Prop :=
  ∀ id g, guildOf s id = some g → ∀ a, Leads s id a ↔ a = g.leader

section Led

variable {new : Hash → Prop} {action : TransactionAction} {signer x : Address} {id : Hash}
  {guild : Option Guild} {member : Option GuildMembership} {g : Guild}

theorem Led.same (h : Led s) (hSame : SameOn guildFamilies s t) : Led t := by
  intro i g hg a
  rw [guildOf_of_sameOn hSame] at hg
  rw [Leads, membershipOf_of_sameOn hSame]
  exact h i g hg a

theorem Led.write (h : Led s) (hWrite : GuildWrite id guild x member s t)
    (hGuild : ∀ g, guild = some g → ∀ a, Leads t id a ↔ a = g.leader) : Led t := by
  intro i g hg a
  rw [hWrite.guilds] at hg
  split at hg
  · rename_i hEq
    rw [hEq]
    exact hGuild g hg a
  · rename_i hNe
    rw [Leads, hWrite.members, if_neg fun hBoth => hNe hBoth.1]
    exact h i g hg a

/-- The record of a member that does not lead. -/
theorem Led.other (h : Led s) (hWrite : GuildWrite id guild x member s t)
    (hGuild : guildOf s id = some g) (hNe : x ≠ g.leader)
    (hRole : ∀ m, member = some m → m.role ≠ .leader)
    (hSame : ∀ g', guild = some g' → g'.leader = g.leader) : Led t := by
  refine h.write hWrite fun g' hg' a => ?_
  rw [hSame g' hg', Leads, hWrite.members]
  by_cases hEq : a = x
  · rw [if_pos ⟨rfl, hEq⟩]
    constructor
    · rintro ⟨m, hm, hLeader⟩
      exact absurd hLeader (hRole m hm)
    · intro hLeader
      exact absurd (hEq.symm.trans hLeader) hNe
  · rw [if_neg fun hBoth => hEq hBoth.2]
    exact h id g hGuild a

theorem Led.ne_leader (h : Led s) (hGuild : guildOf s id = some g) {m : GuildMembership}
    (hMember : membershipOf s id x = some m) (hRole : m.role ≠ .leader) : x ≠ g.leader := by
  intro hEq
  obtain ⟨m', hm', hLeader⟩ := (h id g hGuild x).mpr hEq
  obtain rfl := Option.some.inj (hMember.symm.trans hm')
  exact hRole hLeader

theorem Led.fund (h : Led s) (hGuild : guildOf s id = some g) (balance : UInt64) :
    Led (withGuild s { g with treasuryBalance := balance }) := by
  obtain rfl := id_of_guildOf hGuild
  intro i g' hg' a
  rw [Leads, membershipOf_withGuild]
  rw [guildOf_withGuild] at hg'
  split at hg'
  · rename_i hEq
    obtain rfl := Option.some.inj hg'
    obtain rfl : i = g.guildId := hEq
    exact h _ g hGuild a
  · exact h i g' hg' a

/-- A change keeps the leaders exactly if no leader gives itself another role. -/
theorem Led.change_iff (h : Led s) (hRostered : Rostered s)
    (hChange : GuildChange new signer s action id guild x member)
    (hWrite : GuildWrite id guild x member s t) (hFresh : ∀ id, new id → guildOf s id = none) :
    Led t ↔ ∀ id role, action ≠ .guildPromote id signer role := by
  cases hChange with
  | create name description maxMembers g m hNew hLeader hTreasury hCount hRole =>
      refine iff_of_true (h.write hWrite fun g' hg' a => ?_) fun _ _ hEq => by cases hEq
      obtain rfl := Option.some.inj hg'
      rw [Leads, hWrite.members, hLeader]
      by_cases hEq : a = signer
      · rw [if_pos ⟨rfl, hEq⟩]
        exact iff_of_true ⟨m, rfl, hRole⟩ hEq
      · rw [if_neg fun hBoth => hEq hBoth.2, hRostered.orphans _ (hFresh _ hNew)]
        exact iff_of_false (fun ⟨_, hNone, _⟩ => by cases hNone) hEq
  | join _ g height hGuild hNone hRoom =>
      refine iff_of_true ?_ fun _ _ hEq => by cases hEq
      refine h.other hWrite hGuild (fun hEq => ?_) ?_ ?_
      · obtain ⟨m, hm, -⟩ := (h id g hGuild signer).mpr hEq
        rw [hNone] at hm
        cases hm
      · rintro _ ⟨⟩
        exact GuildRole.noConfusion
      · rintro _ ⟨⟩
        rfl
  | leave _ g m hGuild hMember hRole =>
      refine iff_of_true ?_ fun _ _ hEq => by cases hEq
      refine h.other hWrite hGuild (h.ne_leader hGuild hMember hRole)
        (fun m hm => by cases hm) fun g' hg' => ?_
      split at hg'
      · cases hg'
      · obtain rfl := Option.some.inj hg'
        rfl
  | promote _ g _ role m m' newRole hGuild hSigner hLeader hMember hRole =>
      have hSelf : signer = g.leader := (h id g hGuild signer).mp ⟨m, hSigner, hLeader⟩
      by_cases hEq : x = signer
      · subst hEq
        refine iff_of_false (fun hLed => ?_) fun hNone => hNone id role rfl
        have hNext : guildOf t id = some g := by rw [hWrite.guilds, if_pos rfl]
        obtain ⟨m'', hm'', hStill⟩ := (hLed id g hNext x).mpr hSelf
        rw [hWrite.members, if_pos ⟨rfl, rfl⟩] at hm''
        obtain rfl := Option.some.inj hm''
        exact hRole hStill
      · refine iff_of_true ?_ fun _ _ hPromote => ?_
        · refine h.other hWrite hGuild (fun hLead => hEq (hLead.trans hSelf.symm))
            ?_ ?_
          · rintro _ ⟨⟩
            exact hRole
          · rintro _ ⟨⟩
            rfl
        · injection hPromote with _ hTarget
          exact hEq hTarget
  | kick _ g _ m m' hGuild hSigner hMember hRole hNe =>
      refine iff_of_true ?_ fun _ _ hEq => by cases hEq
      refine h.other hWrite hGuild (h.ne_leader hGuild hMember hRole)
        (fun m hm => by cases hm) fun g' hg' => ?_
      obtain rfl := Option.some.inj hg'
      rfl

theorem Led.effect_iff (h : Led s) (hRostered : Rostered s) {b : Bool}
    (hEffect : GuildEffect new action signer s t b)
    (hFresh : ∀ id, b = true → new id → guildOf s id = none) :
    Led t ↔ (b = true → ∀ id role, action ≠ .guildPromote id signer role) := by
  cases hEffect with
  | kept hKept hSame =>
      refine iff_of_true (h.same hSame) fun hb id role hEq => ?_
      have hGuild := hKept hb
      rw [hEq] at hGuild
      cases hGuild
  | changed hChange hWrite =>
      rw [h.change_iff hRostered hChange hWrite fun id => hFresh id rfl]
      exact ⟨fun hNone _ => hNone, fun hNone => hNone rfl⟩
  | deposited _ _ _ hAction hGuild hSame | withdrew _ _ _ hAction hGuild _ hSame =>
      refine iff_of_true ((h.fund hGuild _).same hSame) fun _ _ _ hEq => ?_
      cases hAction.symm.trans hEq

end Led

/-- The call does not give its own signer another role. -/
def NotDemoted (sha256 : List UInt8 → Hash) (ex : Executor) (s : StateStore) (c : Call) : Prop :=
  c.succeeds sha256 ex s = true →
    ∀ id role, c.tx.transaction.action ≠ .guildPromote id c.tx.transaction.signer role

/-- Over a run that begins without guilds and gives no identifier of a guild twice, every guild
has one leader in every state exactly if no leader gives itself another role. -/
theorem led_iff {l : List Call} (hStart : NoGuilds s)
    (hFresh : Along (Call.next sha256 ex) (FreshGuild sha256 ex) s l) :
    (∀ l', l' <+: l → Led (after (Call.next sha256 ex) s l')) ↔
      Along (Call.next sha256 ex) (NotDemoted sha256 ex) s l := by
  refine hFresh.throughout_iff (I := Rostered) (fun _ _ hRostered hNew => hRostered.call hNew)
    (fun s c hRostered hNew hLed => hLed.effect_iff hRostered (guildEffect_call s c) hNew)
    hStart.rostered fun id g hg => ?_
  rw [hStart.guildOf] at hg
  cases hg

theorem led_iff_promoted :
    (membershipOf (after sampleCall tradersStore guildRun) Hash.zero (Address.ofByte 2)).map
        (·.role) = some .officer ∧
      Led (after sampleCall tradersStore guildRun) := by
  refine ⟨by decide +kernel, (led_iff noGuilds_tradersStore freshGuild_guildRun).mpr
    ⟨?_, ?_, ?_, trivial⟩ guildRun List.prefix_rfl⟩ <;> intro _ _ _ hEq
  · cases hEq
  · cases hEq
  · injection hEq with _ hTarget
    revert hTarget
    decide

/-- The trader creates a guild and gives itself the role of a member. -/
def demotionRun : List Call :=
  [traderCall 0 (.createGuild "guild" "" 5),
    traderCall 1 (.guildPromote Hash.zero (Address.ofByte 1) "member")]

theorem leader_demotes_itself :
    Along sampleCall (FreshGuild (fun _ => Hash.zero) Executor.devnet) traderStore demotionRun ∧
      ¬ Led (after sampleCall traderStore demotionRun) := by
  refine ⟨⟨fun id _ _ => noGuilds_traderStore.guildOf id, ?_, trivial⟩, fun hLed => ?_⟩
  · exact freshGuild_of_ne fun _ _ _ => TransactionAction.noConfusion
  have hGuild : (guildOf (after sampleCall traderStore demotionRun) Hash.zero).map (·.leader) =
      some (Address.ofByte 1) := by decide +kernel
  have hMember : (membershipOf (after sampleCall traderStore demotionRun) Hash.zero
      (Address.ofByte 1)).map (·.role) = some .member := by decide +kernel
  obtain ⟨g, hg, hLeader⟩ := Option.map_eq_some_iff.mp hGuild
  obtain ⟨m, hm, hRole⟩ := (hLed _ g hg _).mpr hLeader.symm
  rw [hm, Option.map_some, hRole] at hMember
  cases hMember

/-! ## The treasury -/

/-- The treasury of a guild, nothing if there is no guild. -/
def treasuryAt (s : StateStore) (id : Hash) : Nat :=
  ((guildOf s id).map fun g => g.treasuryBalance.toNat).getD 0

/-- What an action puts into the treasury of a guild. -/
def depositTo (id : Hash) : TransactionAction → Nat
  | .guildDeposit i amount => if i = id then amount.toNat else 0
  | _ => 0

/-- What an action takes from the treasury of a guild. -/
def withdrawalFrom (id : Hash) : TransactionAction → Nat
  | .guildWithdraw i amount => if i = id then amount.toNat else 0
  | _ => 0

section Treasury

variable {new : Hash → Prop} {action : TransactionAction} {signer x : Address} {id : Hash}
  {guild : Option Guild} {member : Option GuildMembership} {g : Guild}

theorem depositTo_of_not_guildAction (h : guildAction action = false) :
    depositTo id action = 0 := by
  cases action <;> first | rfl | cases h

theorem withdrawalFrom_of_not_guildAction (h : guildAction action = false) :
    withdrawalFrom id action = 0 := by
  cases action <;> first | rfl | cases h

theorem treasuryAt_of_some (h : guildOf s id = some g) :
    treasuryAt s id = g.treasuryBalance.toNat := by
  rw [treasuryAt, h]
  rfl

theorem treasuryAt_of_none (h : guildOf s id = none) : treasuryAt s id = 0 := by
  rw [treasuryAt, h]
  rfl

theorem treasuryAt_of_sameOn (h : SameOn guildFamilies s t) (id : Hash) :
    treasuryAt t id = treasuryAt s id := by
  rw [treasuryAt, guildOf_of_sameOn h, treasuryAt]

theorem treasuryAt_withGuild (s : StateStore) (g : Guild) (i : Hash) :
    treasuryAt (withGuild s g) i =
      if i = g.guildId then g.treasuryBalance.toNat else treasuryAt s i := by
  rw [treasuryAt, guildOf_withGuild]
  split <;> rfl

/-- The last member of a guild that has something in its treasury does not leave it. -/
def LeavesNothing (action : TransactionAction) (s : StateStore) : Prop :=
  ∀ id g, action = .leaveGuild id → guildOf s id = some g → g.memberCount = 1 →
    g.treasuryBalance = 0

/-- The deposits fit the treasuries. -/
def DepositFits (action : TransactionAction) (s : StateStore) : Prop :=
  ∀ id amount g, action = .guildDeposit id amount → guildOf s id = some g →
    g.treasuryBalance.toNat + amount.toNat < 2 ^ 64

/-- A guild that is there no more had nothing in its treasury. -/
def DeletesEmpty (s t : StateStore) : Prop :=
  ∀ id g, guildOf s id = some g → guildOf t id = none → g.treasuryBalance = 0

theorem GuildChange.deletesEmpty_iff
    (hChange : GuildChange new signer s action id guild x member)
    (hWrite : GuildWrite id guild x member s t) :
    DeletesEmpty s t ↔ LeavesNothing action s := by
  -- A change that leaves a guild in the place deletes none.
  have hKeeps : ∀ g', guild = some g' → DeletesEmpty s t := by
    intro g' hg' i g hg hGone
    rw [hWrite.guilds, hg'] at hGone
    split at hGone
    · cases hGone
    · rw [hg] at hGone
      cases hGone
  cases hChange with
  | create name description maxMembers g m =>
      exact iff_of_true (hKeeps g rfl) fun _ _ hEq => by cases hEq
  | join _ | kick _ => exact iff_of_true (hKeeps _ rfl) fun _ _ hEq => by cases hEq
  | promote _ g => exact iff_of_true (hKeeps g rfl) fun _ _ hEq => by cases hEq
  | leave _ g m hGuild =>
      have hLast : g.memberCount - 1 = 0 ↔ g.memberCount = 1 := by
        refine ⟨fun h => ?_, fun h => by rw [h]; rfl⟩
        rw [← UInt32.sub_add_cancel g.memberCount 1, h]
        rfl
      simp only [hLast] at hWrite hKeeps
      constructor
      · intro hDeletes i g' hEq hGuild' hOne
        obtain rfl : id = i := by injection hEq
        obtain rfl := Option.some.inj (hGuild.symm.trans hGuild')
        refine hDeletes id g hGuild ?_
        rw [hWrite.guilds, if_pos rfl, if_pos hOne]
      · intro hNothing i g' hGuild' hGone
        by_cases hOne : g.memberCount = 1
        · rw [hWrite.guilds] at hGone
          split at hGone
          · rename_i hEq
            subst hEq
            obtain rfl := Option.some.inj (hGuild.symm.trans hGuild')
            exact hNothing i g rfl hGuild hOne
          · rw [hGuild'] at hGone
            cases hGone
        · exact hKeeps _ (if_neg hOne) i g' hGuild' hGone

theorem deletesEmpty_withGuild (hSame : SameOn guildFamilies (withGuild s g) t) :
    DeletesEmpty s t := by
  intro id g' hg' hGone
  rw [guildOf_of_sameOn hSame, guildOf_withGuild] at hGone
  split at hGone
  · cases hGone
  · rw [hg'] at hGone
    cases hGone

/-- A transaction deletes empty guilds only, exactly if it leaves nothing behind. -/
theorem GuildEffect.deletesEmpty_iff {b : Bool} (hEffect : GuildEffect new action signer s t b) :
    DeletesEmpty s t ↔ (b = true → LeavesNothing action s) := by
  cases hEffect with
  | kept hKept hSame =>
      refine iff_of_true (fun id g hg hGone => ?_) fun hb id g hEq => ?_
      · rw [guildOf_of_sameOn hSame, hg] at hGone
        cases hGone
      · have hGuild := hKept hb
        rw [hEq] at hGuild
        cases hGuild
  | changed hChange hWrite =>
      rw [hChange.deletesEmpty_iff hWrite]
      exact ⟨fun h _ => h, fun h => h rfl⟩
  | deposited _ _ _ hAction _ hSame | withdrew _ _ _ hAction _ _ hSame =>
      refine iff_of_true (deletesEmpty_withGuild hSame) fun _ _ _ hEq => ?_
      cases hAction.symm.trans hEq

/-- A change of members leaves the treasuries as they are. -/
theorem GuildChange.treasuryAt (hChange : GuildChange new signer s action id guild x member)
    (hWrite : GuildWrite id guild x member s t) (hFresh : ∀ id, new id → guildOf s id = none)
    (hNothing : LeavesNothing action s) (i : Hash) : treasuryAt t i = treasuryAt s i := by
  have hDeletes := (hChange.deletesEmpty_iff hWrite).mpr hNothing
  by_cases hEq : i = id
  · subst hEq
    have hNext : guildOf t i = guild := by rw [hWrite.guilds, if_pos rfl]
    cases hChange with
    | create name description maxMembers g m hNew hLeader hTreasury =>
        rw [treasuryAt_of_some hNext, treasuryAt_of_none (hFresh _ hNew), hTreasury]
        rfl
    | join _ _ _ hGuild | kick _ _ _ _ _ hGuild | promote _ _ _ _ _ _ _ hGuild =>
        rw [treasuryAt_of_some hNext, treasuryAt_of_some hGuild]
    | leave _ g m hGuild =>
        split at hNext
        · rw [treasuryAt_of_none hNext, treasuryAt_of_some hGuild, hDeletes i g hGuild hNext]
          rfl
        · rw [treasuryAt_of_some hNext, treasuryAt_of_some hGuild]
  · rw [Execution.treasuryAt, hWrite.guilds, if_neg hEq, Execution.treasuryAt]

theorem GuildChange.moves_nothing (hChange : GuildChange new signer s action id guild x member)
    (i : Hash) : depositTo i action = 0 ∧ withdrawalFrom i action = 0 := by
  cases hChange <;> exact ⟨rfl, rfl⟩

/-- A transaction changes the treasury of a guild by what it deposits and withdraws. -/
theorem GuildEffect.treasuryAt {b : Bool} (hEffect : GuildEffect new action signer s t b)
    (hFresh : ∀ id, b = true → new id → guildOf s id = none) (hFits : DepositFits action s)
    (hNothing : b = true → LeavesNothing action s) (i : Hash) :
    treasuryAt t i + (if b then withdrawalFrom i action else 0) =
      treasuryAt s i + (if b then depositTo i action else 0) := by
  cases hEffect with
  | kept hKept hSame =>
      rw [treasuryAt_of_sameOn hSame]
      cases b with
      | false => rfl
      | true =>
          rw [depositTo_of_not_guildAction (hKept rfl),
            withdrawalFrom_of_not_guildAction (hKept rfl)]
  | changed hChange hWrite =>
      rw [hChange.treasuryAt hWrite (fun id => hFresh id rfl) (hNothing rfl),
        (hChange.moves_nothing i).1, (hChange.moves_nothing i).2]
  | deposited id amount g hAction hGuild hSame =>
      have hSum : (g.treasuryBalance + amount).toNat =
          g.treasuryBalance.toNat + amount.toNat := by
        rw [UInt64.toNat_add, Nat.mod_eq_of_lt (hFits id amount g hAction hGuild)]
      obtain rfl := id_of_guildOf hGuild
      subst hAction
      rw [treasuryAt_of_sameOn hSame, treasuryAt_withGuild]
      by_cases hEq : i = g.guildId
      · subst hEq
        rw [if_pos rfl, treasuryAt_of_some hGuild]
        simpa [depositTo, withdrawalFrom] using hSum
      · simp [depositTo, withdrawalFrom, hEq, Ne.symm hEq]
  | withdrew id amount g hAction hGuild hEnough hSame =>
      have hLe := UInt64.le_iff_toNat_le.mp hEnough
      have hRest : (g.treasuryBalance - amount).toNat + amount.toNat =
          g.treasuryBalance.toNat := by
        rw [UInt64.toNat_sub_of_le _ _ hEnough]
        omega
      obtain rfl := id_of_guildOf hGuild
      subst hAction
      rw [treasuryAt_of_sameOn hSame, treasuryAt_withGuild]
      by_cases hEq : i = g.guildId
      · subst hEq
        rw [if_pos rfl, treasuryAt_of_some hGuild]
        simpa [depositTo, withdrawalFrom] using hRest
      · simp [depositTo, withdrawalFrom, hEq, Ne.symm hEq]

end Treasury

section TreasuryRuns

variable (sha256 ex)

/-- What a call puts into the treasury of a guild. -/
def deposited (id : Hash) (s : StateStore) (c : Call) : Nat :=
  if c.succeeds sha256 ex s then depositTo id c.tx.transaction.action else 0

/-- What a call takes from the treasury of a guild. -/
def withdrawn (id : Hash) (s : StateStore) (c : Call) : Nat :=
  if c.succeeds sha256 ex s then withdrawalFrom id c.tx.transaction.action else 0

variable {sha256 ex}

/-- Over a run that begins without guilds, gives no identifier of a guild twice and whose
deposits fit, the treasury of every guild is what was deposited less what was withdrawn in every
state, and only guilds with an empty treasury are deleted, exactly if no last member of a guild
leaves it with something in the treasury. -/
theorem treasury_kept_iff {l : List Call} (hStart : NoGuilds s)
    (hFresh : Along (Call.next sha256 ex) (FreshGuild sha256 ex) s l)
    (hFits : Along (Call.next sha256 ex)
      (fun s c => DepositFits c.tx.transaction.action s) s l) :
    ((∀ l', l' <+: l → ∀ id g, guildOf (after (Call.next sha256 ex) s l') id = some g →
        g.treasuryBalance.toNat +
            sumOver (Call.next sha256 ex) (withdrawn sha256 ex id) s l' =
          sumOver (Call.next sha256 ex) (deposited sha256 ex id) s l') ∧
      Along (Call.next sha256 ex) (fun s c => DeletesEmpty s (c.next sha256 ex s)) s l) ↔
    Along (Call.next sha256 ex)
      (fun s c => c.succeeds sha256 ex s = true → LeavesNothing c.tx.transaction.action s) s l := by
  constructor
  · rintro ⟨-, hDeletes⟩
    exact hDeletes.mono fun s c h => (guildEffect_call s c).deletesEmpty_iff.mp h
  · intro hNothing
    refine ⟨fun l' hl' id g hg => ?_,
      hNothing.mono fun s c h => (guildEffect_call s c).deletesEmpty_iff.mpr h⟩
    obtain ⟨rest, rfl⟩ := hl'
    have hAll := (along_append.mp ((hFresh.and hFits).and hNothing)).1
    have hAccounts := hAll.accounts (I := fun _ => True) (m := fun s => treasuryAt s id)
      (f := withdrawn sha256 ex id) (g := deposited sha256 ex id) (fun _ _ _ _ => trivial)
      (fun s c _ h => (guildEffect_call s c).treasuryAt h.1.1 h.1.2 h.2 id) trivial
    rw [treasuryAt_of_some hg, treasuryAt_of_none (hStart.guildOf id), Nat.zero_add] at hAccounts
    exact hAccounts

/-- The trader puts money into a guild of its own. -/
def treasuryRun : List Call :=
  [traderCall 0 (.createGuild "guild" "" 5), traderCall 1 (.guildDeposit Hash.zero 10)]

theorem freshGuild_treasuryRun :
    Along sampleCall (FreshGuild (fun _ => Hash.zero) Executor.devnet) traderStore treasuryRun :=
  ⟨fun id _ _ => noGuilds_traderStore.guildOf id,
    freshGuild_of_ne fun _ _ _ => TransactionAction.noConfusion, trivial⟩

theorem treasury_kept_iff_deposited :
    10 + sumOver sampleCall (withdrawn (fun _ => Hash.zero) Executor.devnet Hash.zero) traderStore
          treasuryRun =
        sumOver sampleCall (deposited (fun _ => Hash.zero) Executor.devnet Hash.zero) traderStore
          treasuryRun := by
  have hFits : Along sampleCall (fun s c => DepositFits c.tx.transaction.action s) traderStore
      treasuryRun := by
    refine ⟨fun _ _ _ => TransactionAction.noConfusion, fun id amount g hEq hGuild => ?_, trivial⟩
    injection hEq with hId hAmount
    subst hId hAmount
    have hTreasury : (guildOf (sampleCall traderStore
        (traderCall 0 (.createGuild "guild" "" 5))) Hash.zero).map (·.treasuryBalance) =
          some 0 := by decide +kernel
    rw [show guildOf (sampleCall _ _) _ = some g from hGuild] at hTreasury
    have hZero : g.treasuryBalance = 0 := Option.some.inj hTreasury
    rw [hZero]
    decide
  have hTen : (guildOf (after sampleCall traderStore treasuryRun) Hash.zero).map
      (·.treasuryBalance) = some 10 := by decide +kernel
  obtain ⟨g, hg, hTreasury⟩ := Option.map_eq_some_iff.mp hTen
  have hKept : g.treasuryBalance.toNat +
      sumOver sampleCall (withdrawn (fun _ => Hash.zero) Executor.devnet Hash.zero) traderStore
        treasuryRun =
      sumOver sampleCall (deposited (fun _ => Hash.zero) Executor.devnet Hash.zero) traderStore
        treasuryRun := ((treasury_kept_iff noGuilds_traderStore freshGuild_treasuryRun hFits).mpr
    ⟨fun _ _ _ => TransactionAction.noConfusion, fun _ _ _ => TransactionAction.noConfusion,
      trivial⟩).1 treasuryRun List.prefix_rfl Hash.zero g hg
  have hAmount : g.treasuryBalance.toNat = 10 := by
    rw [hTreasury]
    rfl
  rw [hAmount] at hKept
  exact hKept

/-- After the deposit the trader gives itself the role of a member and leaves. -/
def abandonmentRun : List Call :=
  treasuryRun ++ [traderCall 2 (.guildPromote Hash.zero (Address.ofByte 1) "member"),
    traderCall 3 (.leaveGuild Hash.zero)]

theorem last_member_leaves_treasury :
    Along sampleCall (FreshGuild (fun _ => Hash.zero) Executor.devnet) traderStore
        abandonmentRun ∧
      ¬ DeletesEmpty (after sampleCall traderStore (abandonmentRun.take 3))
        (after sampleCall traderStore abandonmentRun) := by
  refine ⟨along_append.mpr ⟨freshGuild_treasuryRun, ?_, ?_, trivial⟩, fun hDeletes => ?_⟩
  · exact freshGuild_of_ne fun _ _ _ => TransactionAction.noConfusion
  · exact freshGuild_of_ne fun _ _ _ => TransactionAction.noConfusion
  have hBefore : (guildOf (after sampleCall traderStore (abandonmentRun.take 3)) Hash.zero).map
      (·.treasuryBalance) = some 10 := by decide +kernel
  have hGone : guildOf (after sampleCall traderStore abandonmentRun) Hash.zero = none := by
    decide +kernel
  obtain ⟨g, hg, hTreasury⟩ := Option.map_eq_some_iff.mp hBefore
  rw [hDeletes _ g hg hGone] at hTreasury
  cases hTreasury

end TreasuryRuns

end Polay.Execution
