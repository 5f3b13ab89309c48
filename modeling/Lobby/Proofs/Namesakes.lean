import Lobby.Proofs.PlayerRegistry

/-! What becomes of a player when another one that bore its name before comes to the end of its
run. -/
namespace Lobby

namespace Hub
variable {h h' : Hub} {id p : PlayerId} {n m : Nat} {config : PlayerConfig}

structure Stands (h : Hub) (p : PlayerId) (m : Nat) : Prop where
  registered : h.player? p = some m
  goesOn : h.isCancelled m = false

/-- A player is not registered under a name, and has been asked to stop. -/
structure Felled (h : Hub) (p : PlayerId) (m : Nat) : Prop where
  forgotten : h.player? p ≠ some m
  stopped : h.isCancelled m = true

def Enrolled (h : Hub) : Prop :=
  ∀ id n, h.player? id = some n → (h.standing? n).map (·.1) = some id

theorem isCancelled_eq (h : Hub) (m : Nat) :
    h.isCancelled m = ((h.standing? m).map (·.2)).getD false := by
  rw [isCancelled, standing?, Option.map_map]
  rfl

namespace KeepsPlayers

theorem felled (hk : h.KeepsPlayers h') (hf : h.Felled p m) : h'.Felled p m := by
  refine ⟨fun hp => hf.forgotten ((hk.player? p).symm.trans hp), ?_⟩
  rw [isCancelled_eq, hk.standing, ← isCancelled_eq]
  exact hf.stopped

end KeepsPlayers

private theorem player?_cancelPlayer (h : Hub) (n : Nat) (id : PlayerId) :
    (h.cancelPlayer n).player? id = h.player? id := by
  rw [player?, index_cancelPlayer, ← player?]

theorem Stands.cancelPlayer (hs : h.Stands p m) (hn : n ≠ m) : (h.cancelPlayer n).Stands p m := by
  refine ⟨(player?_cancelPlayer h n p).trans hs.registered, ?_⟩
  rw [isCancelled_eq, standing?_cancelPlayer, if_neg hn.symm, ← isCancelled_eq]
  exact hs.goesOn

private theorem isCancelled_cancelPlayer (h : Hub) (n : Nat) (hm : h.isCancelled m = true) :
    (h.cancelPlayer n).isCancelled m = true := by
  rw [isCancelled_eq] at hm ⊢
  rw [standing?_cancelPlayer]
  split
  · cases hp : h.standing? m with
    | none => simp [hp] at hm
    | some => rfl
  · exact hm

theorem Felled.cancelPlayer (hf : h.Felled p m) (n : Nat) : (h.cancelPlayer n).Felled p m :=
  ⟨fun hp => hf.forgotten ((player?_cancelPlayer h n p).symm.trans hp),
    isCancelled_cancelPlayer h n hf.stopped⟩

theorem Enrolled.cancelPlayer (he : h.Enrolled) (n : Nat) : (h.cancelPlayer n).Enrolled := by
  intro id m hid
  have hbears := he id m ((player?_cancelPlayer h n id).symm.trans hid)
  rw [standing?_cancelPlayer]
  split
  · rw [Option.map_map]
    exact hbears
  · exact hbears

private theorem standing?_removePlayer (hid : h.player? id = some n) (m : Nat) :
    (h.removePlayer id).2.standing? m = (h.cancelPlayer n).standing? m := by
  rw [removePlayer, hid]
  rfl

private theorem removePlayer_of_free (hid : h.player? id = none) : (h.removePlayer id).2 = h := by
  rw [removePlayer, hid]

/-- Another name's removal does no harm. -/
theorem Stands.removePlayer (hs : h.Stands p m) (he : h.Enrolled) (hp : id ≠ p) :
    (h.removePlayer id).2.Stands p m := by
  cases hid : h.player? id with
  | none => rwa [removePlayer_of_free hid]
  | some n =>
    have hn : n ≠ m := by
      rintro rfl
      exact hp (Option.some.inj ((he id n hid).symm.trans (he p n hs.registered)))
    constructor
    · rw [player?_removePlayer, if_neg hp.symm]
      exact hs.registered
    · rw [isCancelled_eq, standing?_removePlayer hid, ← isCancelled_eq]
      exact (hs.cancelPlayer hn).goesOn

theorem Felled.removePlayer (hf : h.Felled p m) (id : PlayerId) :
    (h.removePlayer id).2.Felled p m := by
  cases hid : h.player? id with
  | none => rwa [removePlayer_of_free hid]
  | some n =>
    constructor
    · rw [player?_removePlayer]
      split
      · simp
      · exact hf.forgotten
    · rw [isCancelled_eq, standing?_removePlayer hid, ← isCancelled_eq]
      exact isCancelled_cancelPlayer h n hf.stopped

theorem Enrolled.removePlayer (he : h.Enrolled) (id : PlayerId) :
    (h.removePlayer id).2.Enrolled := by
  cases hid : h.player? id with
  | none => rwa [removePlayer_of_free hid]
  | some n =>
    intro other m hother
    rw [player?_removePlayer] at hother
    split at hother
    · contradiction
    · rw [standing?_removePlayer hid]
      exact he.cancelPlayer n other m ((player?_cancelPlayer h n other).trans hother)

private theorem standing?_openPlayer (hfree : h.player? id = none) (m : Nat) :
    (h.openPlayer id config).2.2.standing? m =
      if m = h.players.size then some (id, false) else h.standing? m := by
  rw [openPlayer, hfree, standing?, standing?]
  simp only [signal, Array.getElem?_push]
  split <;> rfl

private theorem ne_size_of_standing? {x : PlayerId × Bool} (hm : h.standing? m = some x) :
    m ≠ h.players.size := by
  rintro rfl
  simp [standing?] at hm

private theorem ne_size_of_cancelled (hm : h.isCancelled m = true) : m ≠ h.players.size := by
  rw [isCancelled_eq] at hm
  cases hs : h.standing? m with
  | none => simp [hs] at hm
  | some x => exact ne_size_of_standing? hs

theorem Stands.openPlayer (hs : h.Stands p m) (he : h.Enrolled) (hfree : h.player? id = none) :
    (h.openPlayer id config).2.2.Stands p m := by
  obtain ⟨x, hx, -⟩ := Option.map_eq_some_iff.mp (he p m hs.registered)
  have hp : p ≠ id := by
    rintro rfl
    rw [hs.registered] at hfree
    contradiction
  constructor
  · rw [player?_openPlayer hfree, if_neg hp]
    exact hs.registered
  · rw [isCancelled_eq, standing?_openPlayer hfree, if_neg (ne_size_of_standing? hx),
      ← isCancelled_eq]
    exact hs.goesOn

theorem Felled.openPlayer (hf : h.Felled p m) (hfree : h.player? id = none) :
    (h.openPlayer id config).2.2.Felled p m := by
  have hm := ne_size_of_cancelled hf.stopped
  constructor
  · rw [player?_openPlayer hfree]
    split
    · exact fun heq => hm (Option.some.inj heq).symm
    · exact hf.forgotten
  · rw [isCancelled_eq, standing?_openPlayer hfree, if_neg hm, ← isCancelled_eq]
    exact hf.stopped

theorem Enrolled.openPlayer (he : h.Enrolled) (hfree : h.player? id = none) :
    (h.openPlayer id config).2.2.Enrolled := by
  intro other n hother
  rw [player?_openPlayer hfree] at hother
  rw [standing?_openPlayer hfree]
  split at hother
  · rename_i ho
    rw [if_pos (Option.some.inj hother).symm, ho]
    rfl
  · have hbears := he other n hother
    obtain ⟨x, hx, -⟩ := Option.map_eq_some_iff.mp hbears
    rwa [if_neg (ne_size_of_standing? hx)]

end Hub

namespace System
variable {σ σ' : System} {p : PlayerId} {n m : Nat} {s : Session} {act : Act}

def RunOver (σ : System) (p : PlayerId) (n : Nat) : Prop :=
  ∃ s, σ.sessions[n]? = some s ∧ s.id = p ∧ s.supervising = .ended

def DutyOver (σ : System) (n : Nat) : Prop := ∃ s, σ.sessions[n]? = some s ∧ s.DutyOver

def Quiet (σ σ' : System) : Prop := ∀ p n, σ'.RunOver p n → σ.RunOver p n

inductive Alters (σ : System) (act : Act) (σ' : System) : Prop
  | keeps (hub : σ.hub.KeepsPlayers σ'.hub) (quiet : σ.Quiet σ')
  | stops {n : Nat} (hub : (σ.hub.cancelPlayer n).KeepsPlayers σ'.hub)
      (why : act = .call (.cancelPlayer n) ∨ σ'.DutyOver n) (quiet : σ.Quiet σ')
  | removes {id : PlayerId} (why : act = .call (.removePlayer id))
      (hub : (σ.hub.removePlayer id).2.KeepsPlayers σ'.hub) (quiet : σ.Quiet σ')
  | leaves {id : PlayerId} {n : Nat} (hub : (σ.hub.removePlayer id).2.KeepsPlayers σ'.hub)
      (before : ¬ σ.RunOver id n) (after : σ'.RunOver id n)
      (others : ∀ p k, p ≠ id → σ'.RunOver p k → σ.RunOver p k)
  | enters {id : PlayerId} {config : PlayerConfig} {window : Option Nat}
      (free : σ.hub.player? id = none) (hub : σ'.hub = (σ.hub.openPlayer id config).2.2)
      (quiet : σ.Quiet σ') (why : act = .connect id config window)

private theorem over_after (hs : σ.sessions[n]? = some s) {step : Session.Step}
    (hid : step.2.1.id = s.id) (p : PlayerId) (k : Nat) : (σ.after n step).RunOver p k ↔
      if k = n then s.id = p ∧ step.2.1.supervising = .ended else σ.RunOver p k := by
  rw [RunOver, getElem?_after hs]
  split
  · simp [hid]
  · rfl

private theorem alters_after (hσ : σ.Sound) (hs : σ.sessions[n]? = some s) (act : Session.Act) :
    σ.Alters (.session n act) (σ.after n (s.perform σ.hub n act)) := by
  have hremains {step : Session.Step} (hr : s.Remains step.2.1) : σ.Quiet (σ.after n step) := by
    intro p k hk
    rw [over_after hs hr.id] at hk
    split at hk
    · rename_i hkn
      exact ⟨s, hkn ▸ hs, hk.1, hr.ended.mp hk.2⟩
    · exact hk
  rcases (hσ.session hs).treats σ.hub act with ⟨hub, rest⟩ | ⟨hub, rest, hover⟩ | ⟨hub, before, hs'⟩
  · exact .keeps hub (hremains rest)
  · refine .stops hub (.inr ⟨_, ?_, hover⟩) (hremains rest)
    rw [getElem?_after hs, if_pos rfl]
  · have hover := over_after hs (by rw [hs'] : (s.perform σ.hub n act).2.1.id = s.id)
    refine .leaves (n := n) hub ?_ ?_ ?_
    · rintro ⟨s', hs', -, hended⟩
      obtain rfl := Option.some.inj (hs.symm.trans hs')
      exact before hended
    · rw [hover, if_pos rfl, hs']
      exact ⟨rfl, rfl⟩
    · intro p k hp hk
      rw [hover] at hk
      split at hk
      · exact absurd hk.1.symm hp
      · exact hk

theorem Sound.alters (hσ : σ.Sound) (act : Act) : σ.Alters act (σ.perform act) := by
  have quiet_of_sessions {σ' : System} (hs : σ'.sessions = σ.sessions) : σ.Quiet σ' := by
    intro p n hover
    rwa [RunOver, hs] at hover
  have stay : σ.Alters act σ := .keeps (.refl _) fun _ _ h => h
  cases act with
  | session n act =>
    rw [System.perform]
    split
    · exact alters_after hσ ‹_› act
    · exact stay
  | room r =>
    rw [System.perform]
    split
    · exact .keeps ((Hub.steady_keepsPlayers _).stepRoom (.refl _) r) (quiet_of_sessions rfl)
    · exact stay
  | take r =>
    rw [System.perform, takeUp]
    split
    · split
      · exact .keeps ((Hub.steady_keepsPlayers _).takeEvent? (.refl _) ‹_›) (quiet_of_sessions rfl)
      · exact stay
    · exact stay
  | conclude r =>
    rw [System.perform]
    split
    · exact .keeps ((Hub.steady_keepsPlayers _).handleEvent (.refl _) _ r _) (quiet_of_sessions rfl)
    · exact stay
  | connect id config window =>
    cases hid : σ.hub.player? id with
    | some n =>
      have ho : σ.hub.openPlayer id config = (n, false, σ.hub) := by rw [Hub.openPlayer, hid]
      simp only [System.perform, ho]
      exact stay
    | none =>
      obtain ⟨hub, ho⟩ : ∃ hub, σ.hub.openPlayer id config = (σ.hub.players.size, true, hub) := by
        rw [Hub.openPlayer, hid]
        exact ⟨_, rfl⟩
      simp only [System.perform, ho]
      refine .enters hid (congrArg (·.2.2) ho).symm ?_ rfl
      rintro p k ⟨s, hs, hsp, hended⟩
      rw [Array.getElem?_push] at hs
      split at hs
      · obtain rfl := Option.some.inj hs
        simp [Session.start] at hended
      · exact ⟨s, hs, hsp, hended⟩
  | call c =>
    have robust := Hub.robust_keepsPlayers σ.hub
    have quiet : σ.Quiet (σ.perform (.call c)) := quiet_of_sessions rfl
    cases c with
    | openRoom id name => exact .keeps (Hub.keepsPlayers_openRoom _ id name) quiet
    | createRoom name => exact .keeps (robust.createRoom (.refl _)) quiet
    | removeRoom id => exact .keeps (Hub.keepsPlayers_removeRoom _ id) quiet
    | cancelRoom r => exact .keeps (Hub.keepsPlayers_cancelRoom _ r) quiet
    | removePlayer id => exact .removes rfl (.refl _) quiet
    | cancelPlayer n => exact .stops (.refl _) (.inl rfl) quiet
    | offer r e => exact .keeps (robust.offerEvent (.refl _) r e) quiet
    | request r timeout now event =>
      exact .keeps (robust.request (.refl _) _ r timeout now event) quiet
    | resume w now => exact .keeps (robust.resume (.refl _) w now) quiet
    | expire w => exact .keeps (robust.expire (.refl _) w) quiet

namespace Alters

theorem felled (ha : σ.Alters act σ') (hf : σ.hub.Felled p m) : σ'.hub.Felled p m := by
  cases ha with
  | keeps hub => exact hub.felled hf
  | stops hub => exact hub.felled (hf.cancelPlayer _)
  | removes why hub => exact hub.felled (hf.removePlayer _)
  | leaves hub => exact hub.felled (hf.removePlayer _)
  | enters free hub => exact hub ▸ hf.openPlayer free

end Alters

theorem Sound.felled_all (hσ : σ.Sound) (hf : σ.hub.Felled p m) (acts : List Act) :
    (σ.performAll acts).hub.Felled p m := by
  induction acts generalizing σ with
  | nil => exact hf
  | cons act rest ih => exact ih (hσ.perform act) ((hσ.alters act).felled hf)

end System

end Lobby
