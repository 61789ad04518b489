import Polay.Execution.Calls

/-!
# Usernames

Profiles are stored by address. Creating one does not look at other profiles, and
the first change of a reputation files a profile under the text of the address.
-/

namespace Polay.Execution

open Lib Lib.Machine Lib.Trace Polay.Types State

variable {sha256 : List UInt8 → Hash} {ex : Executor} {s t : StateStore}

def profileOf (s : StateStore) (a : Address) : Option PlayerProfile :=
  (s.get? (.profile a)).map (·.val)

/-- The username in the profile of an account. -/
def usernameOf (s : StateStore) (a : Address) : Option String :=
  (profileOf s a).map PlayerProfile.username

theorem files_profile (p : PlayerProfile) : (Key.profile p.address).Files p := rfl

/-- The store with a profile written. -/
def withProfile (s : StateStore) (p : PlayerProfile) : StateStore :=
  s.insert (.profile p.address) ⟨p, files_profile p⟩

/-- The account whose profile an action writes, and the username it has if it is a new one. -/
def named (action : TransactionAction) (signer : Address) : Option (Address × String) :=
  match action with
  | .createProfile username _ _ => some (signer, username)
  | .updateReputation player _ _ => some (player, player.toHex)
  | _ => none

/-- The username of an account after the profile of `name` is written: the old one, if there is
one. -/
def filedName (name : Option (Address × String)) (s : StateStore) (a : Address) : Option String :=
  match name with
  | some (player, username) =>
      if a = player then some ((usernameOf s a).getD username) else usernameOf s a
  | none => usernameOf s a

/-- No two accounts have the same username. -/
def Unique (s : StateStore) : Prop :=
  ∀ a b u, usernameOf s a = some u → usernameOf s b = some u → a = b

/-- The username of a new profile is not in use. -/
def Unused (s : StateStore) (c : Call) : Prop :=
  ∀ player username, named c.tx.transaction.action c.tx.transaction.signer =
      some (player, username) →
    usernameOf s player = none → ∀ a, usernameOf s a ≠ some username

/-! ## The handlers -/

section Handlers

theorem usernameOf_of_sameOn (h : SameOn [.profile] s t) (a : Address) :
    usernameOf t a = usernameOf s a := by
  rw [usernameOf, profileOf, h (.profile a) (by simp [familyOf]), ← profileOf, ← usernameOf]

theorem usernameOf_withProfile (s : StateStore) (p : PlayerProfile) (a : Address) :
    usernameOf (withProfile s p) a = if a = p.address then some p.username else usernameOf s a :=
  Store.read_insert s (.profile a) (fun o => (o.map Subtype.val).map PlayerProfile.username)
    (by simp [eq_comm]) (by rintro ⟨⟩; rfl)

theorem address_of_profileOf {a : Address} {p : PlayerProfile} (h : profileOf s a = some p) :
    p.address = a := by
  obtain ⟨x, _, rfl⟩ := Option.map_eq_some_iff.mp h
  exact x.property

variable {β : Type} {Q : Outcome ExecutionError β → StateStore → Prop}

theorem wp_getProfile_bind {a : Address} {f : Option PlayerProfile → Handler β} :
    ((getProfile a).bind f).Wp Q s ↔ (f (profileOf s a)).Wp Q s := Iff.rfl

theorem wp_setProfile_bind {p : PlayerProfile} {f : Unit → Handler β} :
    ((setProfile p).bind f).Wp Q s ↔ (f ()).Wp Q (withProfile s p) := Iff.rfl

/-- What an action does to usernames. -/
def NameEffect (name : Option (Address × String)) (s t : StateStore) (b : Bool) : Prop :=
  ∀ a, usernameOf t a = if b then filedName name s a else usernameOf s a

variable {signer : Address}

theorem createProfile_wp (s : StateStore) (username displayName : String)
    (metadata : Option String) (timestamp : UInt64) :
    (Identity.executeCreateProfile signer username displayName metadata timestamp).Wp
      (fun o t => NameEffect (some (signer, username)) s t o.toOption.isSome) s := by
  simp only [Identity.executeCreateProfile, Prog.bind_eq, wp_getProfile_bind,
    Prog.wp_ensure_bind, wp_setProfile_bind, Prog.pure_eq, Prog.wp_pure]
  refine ⟨fun _ a => rfl, fun hNone a => ?_⟩
  have hNew : usernameOf s signer = none := by
    rw [usernameOf, Option.isNone_iff_eq_none.mp hNone]
    rfl
  rw [usernameOf_withProfile]
  show _ = if a = signer then some ((usernameOf s a).getD username) else usernameOf s a
  by_cases hEq : a = signer
  · rw [if_pos hEq, hEq, hNew]
    exact if_pos rfl
  · rw [if_neg hEq]
    exact if_neg hEq

/-- A change of the reputation keeps the username of a profile that exists. -/
theorem updateReputation_wp (s : StateStore) (player : Address) (delta : Int64)
    (timestamp : UInt64) :
    (Identity.executeUpdateReputation signer player delta timestamp).Wp
      (fun o t => NameEffect (some (player, player.toHex)) s t o.toOption.isSome) s := by
  simp only [Identity.executeUpdateReputation, Prog.bind_eq, wp_getAttestor_bind,
    wp_getProfile_bind, Prog.wp_ensure_bind, wp_setProfile_bind, Prog.pure_eq, Prog.wp_pure]
  refine ⟨fun _ a => rfl, fun _ a => ?_⟩
  let new := PlayerProfile.new player player.toHex "Anonymous" none timestamp
  have hAddress : ((profileOf s player).getD new).address = player := by
    cases hProfile : profileOf s player with
    | none => rfl
    | some p => exact address_of_profileOf hProfile
  have hName : ((profileOf s player).getD new).username =
      (usernameOf s player).getD player.toHex := by
    rw [usernameOf]
    cases profileOf s player <;> rfl
  have hWrite := usernameOf_withProfile s
    (((profileOf s player).getD new).adjustReputation delta) a
  rw [hWrite]
  show (if a = ((profileOf s player).getD new).address then
      some ((profileOf s player).getD new).username else usernameOf s a) =
    if a = player then some ((usernameOf s a).getD player.toHex) else usernameOf s a
  rw [hAddress, hName]
  by_cases hEq : a = player
  · rw [if_pos hEq, if_pos hEq, hEq]
  · rw [if_neg hEq, if_neg hEq]

theorem nameEffect_dispatchAction (sha256 : List UInt8 → Hash) (ex : Executor)
    (action : TransactionAction) (signer : Address) (timestamp height : UInt64) (s : StateStore) :
    (ex.dispatchAction sha256 action signer timestamp height).Wp
      (fun o t => NameEffect (named action signer) s t o.toOption.isSome) s := by
  by_cases hWritten : Family.profile ∈ writtenBy action
  · have hEvents : ∀ {α β : Type} {name : Option (Address × String)} {p : Handler α} {f : α → β},
        p.Wp (fun o t => NameEffect name s t o.toOption.isSome) s →
        (p.bind fun a => .pure (f a)).Wp
          (fun o t => NameEffect name s t o.toOption.isSome) s :=
      fun {_ _ name _ _} =>
        (Prog.wp_isSome_bind_pure (R := fun b t => NameEffect name s t b)).mpr
    cases action
    case createProfile username displayName metadata =>
      exact hEvents (createProfile_wp s username displayName metadata timestamp)
    case updateReputation player delta reason =>
      exact hEvents (updateReputation_wp s player delta timestamp)
    all_goals exact absurd hWritten (by simp [writtenBy])
  · have hNamed : named action signer = none := by
      cases action <;> simp_all [named, writtenBy]
    have hSame := usernameOf_of_sameOn (sameOn_of_keeps (s := s) (F := [.profile])
      (run_keeps (dispatchAction_keeps sha256 ex action signer timestamp height))
      (by simpa using hWritten))
    show NameEffect _ _ _ _
    intro a
    rw [hNamed, hSame]
    exact (ite_self _).symm

end Handlers

/-- What a call does to usernames. -/
theorem nameEffect_call (sha256 : List UInt8 → Hash) (ex : Executor) (s : StateStore) (c : Call) :
    NameEffect (named c.tx.transaction.action c.tx.transaction.signer) s (c.next sha256 ex s)
      (c.succeeds sha256 ex s) := by
  refine Call.effect (F := [.profile]) (by simp [feeFamilies]) (by simp)
    (R := fun b s t => NameEffect _ s t b) (fun a => rfl) ?_ fun s₁ _ => ?_
  · intro b s₁ t₁ t hs h ht a
    have hBefore := usernameOf_of_sameOn hs
    have hFiled : ∀ name, filedName name s₁ a = filedName name s a := by
      intro name
      unfold filedName
      rw [hBefore]
    rw [usernameOf_of_sameOn ht, h, hFiled, hBefore]
  · exact nameEffect_dispatchAction sha256 ex c.tx.transaction.action c.tx.transaction.signer
      c.tx.transaction.timestamp c.height s₁

/-! ## Uniqueness -/

/-- Filing a name that is not in use. -/
theorem Unique.filed (h : Unique s) {player : Address} {username : String}
    (hNames : ∀ a, usernameOf t a = filedName (some (player, username)) s a)
    (hUnused : usernameOf s player = none → ∀ a, usernameOf s a ≠ some username) : Unique t := by
  have hOther : ∀ a, a ≠ player → usernameOf t a = usernameOf s a :=
    fun a hNe => (hNames a).trans (if_neg hNe)
  have hPlayer : usernameOf t player = some ((usernameOf s player).getD username) :=
    (hNames player).trans (if_pos rfl)
  -- Nobody else has the name that the player has now.
  have hOwn : ∀ a u, a ≠ player → usernameOf t a = some u → usernameOf t player = some u →
      False := by
    intro a u hNe ha hp
    rw [hOther a hNe] at ha
    rw [hPlayer] at hp
    cases hOld : usernameOf s player with
    | none =>
        rw [hOld] at hp
        exact hUnused hOld a (ha.trans hp.symm)
    | some v =>
        rw [hOld] at hp
        exact hNe (h a player u ha (hOld.trans hp))
  intro a b u ha hb
  by_cases hA : a = player
  · by_cases hB : b = player
    · rw [hA, hB]
    · rw [hA] at ha
      exact (hOwn b u hB hb ha).elim
  · by_cases hB : b = player
    · rw [hB] at hb
      exact (hOwn a u hA ha hb).elim
    · rw [hOther a hA] at ha
      rw [hOther b hB] at hb
      exact h a b u ha hb

theorem Unique.call (h : Unique s) {c : Call}
    (hUnused : c.succeeds sha256 ex s = true → Unused s c) :
    Unique (c.next sha256 ex s) := by
  have hEffect := nameEffect_call sha256 ex s c
  have hKept : (∀ a, usernameOf (c.next sha256 ex s) a = usernameOf s a) →
      Unique (c.next sha256 ex s) := by
    intro hSame a b u ha hb
    rw [hSame] at ha hb
    exact h a b u ha hb
  cases hOk : c.succeeds sha256 ex s with
  | false =>
      rw [hOk] at hEffect
      exact hKept hEffect
  | true =>
      rw [hOk] at hEffect
      cases hName : named c.tx.transaction.action c.tx.transaction.signer with
      | none =>
          rw [hName] at hEffect
          exact hKept hEffect
      | some name =>
          rw [hName] at hEffect
          exact h.filed hEffect (hUnused hOk name.1 name.2 hName)

/-- A profile with a username in use is created all the same. -/
theorem Unique.unused {c : Call} (hNext : Unique (c.next sha256 ex s))
    (hOk : c.succeeds sha256 ex s = true) : Unused s c := by
  intro player username hName hNone a ha
  have hEffect := nameEffect_call sha256 ex s c
  rw [hOk, hName] at hEffect
  have hFiled : ∀ b, usernameOf (c.next sha256 ex s) b =
      filedName (some (player, username)) s b := hEffect
  have hNe : a ≠ player := by
    rintro rfl
    rw [hNone] at ha
    cases ha
  have hOther : usernameOf (c.next sha256 ex s) a = some username :=
    ((hFiled a).trans (if_neg hNe)).trans ha
  have hPlayer : usernameOf (c.next sha256 ex s) player = some username := by
    have hGetD : usernameOf (c.next sha256 ex s) player =
        some ((usernameOf s player).getD username) := (hFiled player).trans (if_pos rfl)
    rw [hGetD, hNone]
    rfl
  exact hNe (hNext a player username hOther hPlayer)

/-- From a store whose usernames are unique, such as one without profiles, they are unique in
every state of a run exactly if no successful call creates a profile with a username in use. -/
theorem usernames_unique_iff {l : List Call} (h : Unique s) :
    (∀ l', l' <+: l → Unique (after (Call.next sha256 ex) s l')) ↔
      Along (Call.next sha256 ex) (fun s c => c.succeeds sha256 ex s = true → Unused s c) s l :=
  throughout_iff_along (I := fun _ => True) (fun _ _ _ => trivial)
    (fun _ _ _ hUnique => ⟨fun hNext => hNext.unused, hUnique.call⟩) trivial h

theorem usernameOf_tradersStore (a : Address) : usernameOf tradersStore a = none := by
  rw [usernameOf, profileOf, tradersStore, get?_withAccount (by simp),
    get?_traderStore (by simp)]
  rfl

theorem unique_tradersStore : Unique tradersStore := by
  intro a b u ha
  rw [usernameOf_tradersStore] at ha
  cases ha

/-- The trader creates a profile. -/
def aliceCall : Call := traderCall 0 (.createProfile "alice" "Alice" none)

/-- Another account creates one with another username. -/
def twoProfiles : List Call :=
  [aliceCall, otherCall 0 1 (.createProfile "bob" "Bob" none)]

theorem usernames_unique_iff_bob :
    Unique (after sampleCall tradersStore twoProfiles) ∧
      usernameOf (after sampleCall tradersStore twoProfiles) (Address.ofByte 1) = some "alice" ∧
      usernameOf (after sampleCall tradersStore twoProfiles) (Address.ofByte 2) = some "bob" := by
  have hUnused : Along sampleCall (fun s c => c.succeeds (fun _ => Hash.zero) Executor.devnet s =
      true → Unused s c) tradersStore twoProfiles := by
    refine ⟨fun _ player username _ _ a ha => ?_, fun _ player username hNamed _ a ha => ?_,
      trivial⟩
    · rw [usernameOf_tradersStore] at ha
      cases ha
    · -- Only the first profile is there, with another name.
      cases hNamed
      have hFirst : aliceCall.succeeds (fun _ => Hash.zero) Executor.devnet tradersStore =
          true := by decide +kernel
      rw [sampleCall, nameEffect_call, if_pos hFirst] at ha
      simp only [aliceCall, traderCall, named, filedName, usernameOf_tradersStore] at ha
      split at ha
      · exact absurd (Option.some.inj ha) (by decide)
      · cases ha
  exact ⟨(usernames_unique_iff unique_tradersStore).mpr hUnused _ List.prefix_rfl,
    by decide +kernel, by decide +kernel⟩

/-- A second account takes the same username. -/
theorem username_taken_twice :
    Unique tradersStore ∧
      ¬ Unique (after sampleCall tradersStore
        [aliceCall, otherCall 0 1 (.createProfile "alice" "Mallory" none)]) := by
  refine ⟨unique_tradersStore, fun h => ?_⟩
  have hEq := h (Address.ofByte 1) (Address.ofByte 2) "alice" (by decide +kernel)
    (by decide +kernel)
  revert hEq
  decide +kernel

end Polay.Execution
