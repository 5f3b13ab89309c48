import Lobby.Proofs.Systems
import Lobby.World.Actions

/-! Whatever the scheduler does under its clock is a run of the system, one among all that there
are. -/
namespace Lobby.World

def system (w : World) : System := { hub := w.hub, sessions := w.sessions }

variable {w w' : World} {p : PlayerId}

private theorem system_enqueue (w : World) (t : Task) : (w.enqueue t).system = w.system := by
  rw [enqueue]
  split
  · rfl
  · split
    · split <;> rfl
    · split
      · rfl
      · split <;> rfl

private theorem system_notice (w : World) (s : Signal) : (w.notice s).system = w.system := by
  cases s with
  | started t => exact system_enqueue w t
  | settled t => exact system_enqueue w t
  | arrived t =>
    rw [notice]
    split
    · exact system_enqueue w t
    · rfl
  | roomCancelled r =>
    rw [notice]
    split
    · exact system_enqueue w _
    · rfl
  | dutyEnded n =>
    rw [notice]
    split
    · split
      · exact system_enqueue w _
      · rfl
    · rfl
  | playerCancelled n =>
    have wake {w' : World} (b : Bool) (t : Task) (h : w'.system = w.system) :
        (if b then w'.enqueue t else w').system = w.system := by
      cases b
      · exact h
      · exact (system_enqueue w' t).trans h
    have wake_unless {w' : World} (b : Bool) (t : Task) (h : w'.system = w.system) :
        (if b then w' else w'.enqueue t).system = w.system := by
      cases b
      · exact (system_enqueue w' t).trans h
      · exact h
    rw [notice]
    split
    · exact wake _ _ (wake_unless _ _ (wake_unless _ _ rfl))
    · rfl

private theorem system_foldl {α : Type} {f : World → α → World}
    (hf : ∀ w x, (f w x).system = w.system) (l : List α) (w : World) :
    (l.foldl f w).system = w.system := by
  induction l generalizing w with
  | nil => rfl
  | cons x l ih => exact (ih (f w x)).trans (hf w x)

theorem system_settle (w : World) :
    w.settle.system = ({ w with hub := { w.hub with signals := [] } } : World).system := by
  rw [settle, system_foldl system_notice]

theorem leads_settle (w : World) : System.Leads p w.system w.settle.system := by
  rw [system_settle]
  exact .single (.aside ⟨rfl, rfl, rfl, rfl, Nat.le_refl _⟩)

private theorem leads_stepSession {n : Nat} {step : Session → Hub → Session.Step}
    (h : ∀ s, w.sessions[n]? = some s →
      System.Step p w.system (w.system.after n (step s w.hub))) :
    System.Leads p w.system (w.stepSession n step).2.system := by
  rw [stepSession, session?]
  cases hs : w.sessions[n]? with
  | none => exact .refl
  | some s => exact .single (h s hs)

/-- What a task does at its turn is one step. -/
theorem leads_step (w : World) (t : Task) : System.Leads p w.system (w.step t).2.system := by
  cases t with
  | reader n => exact leads_stepSession fun s hs => .read hs
  | writer n => exact leads_stepSession fun s hs => .write hs
  | dispatcher n => exact leads_stepSession fun s hs => .dispatch hs w.now
  | supervisor n => exact leads_stepSession fun s hs => .supervise hs w.now
  | room r => exact .single (.room rfl)
  | visitor => exact .refl

theorem leads_runTask (fuel : Nat) (w : World) (t : Task) :
    System.Leads p w.system (runTask fuel w t).system := by
  induction fuel generalizing w with
  | zero => exact .refl
  | succ fuel ih =>
    have hstep := leads_step (p := p) w t
    rw [runTask]
    split
    · rename_i w' hw
      rw [hw] at hstep
      exact hstep.trans (ih w')
    · rename_i w' hw
      rw [hw] at hstep
      exact hstep

theorem leads_turn (w : World) (t : Task) : System.Leads p w.system (w.turn t).system :=
  (leads_runTask _ w t).trans (leads_settle _)

private theorem system_next {t : Task} (h : w.next? = some (t, w')) : w'.system = w.system := by
  rw [next?] at h
  split at h
  · cases h
    rfl
  · split at h
    · cases h
      rfl
    · contradiction

theorem leads_runIdle (fuel : Nat) (w : World) :
    System.Leads p w.system (runIdle fuel w).system := by
  induction fuel generalizing w with
  | zero => exact .refl
  | succ fuel ih =>
    rw [runIdle]
    split
    · rename_i t w' hw
      rw [← system_next hw]
      exact (leads_turn w' t).trans (ih _)
    · exact .refl

private theorem leads_reach (w : World) (time : Nat) (visitor : Option Wait) :
    System.Leads p w.system (w.reach time visitor).rest.system := by
  have hreach : (w.reach time visitor).system = w.system := by
    rw [reach]
    exact system_foldl (f := fun w (wait : Wait) => w.enqueue wait.ticket.owner)
      (fun w wait => system_enqueue w wait.ticket.owner) _ { w with now := time }
  have hrest := leads_runIdle (p := p) enoughTurns (w.reach time visitor)
  rwa [hreach] at hrest

theorem leads_passUntil (fuel : Nat) (w : World) (time : Nat) :
    System.Leads p w.system (passUntil fuel w time).system := by
  induction fuel generalizing w with
  | zero => exact .refl
  | succ fuel ih =>
    rw [passUntil]
    split
    · split
      · exact (leads_reach w _ none).trans (ih _)
      · exact leads_reach w time none
    · exact leads_reach w time none

/-- Time passes, and all that can run does. -/
theorem leads_breathe (w : World) : System.Leads p w.system w.breathe.system :=
  (leads_runIdle _ w).trans (leads_passUntil _ _ _)

/-- A client comes. -/
theorem leads_connect (w : World) (id : PlayerId) (config : PlayerConfig) (window : Option Nat) :
    System.Leads p w.system (w.connect id config .standard window).2.2.system := by
  rw [connect]
  split
  · exact .refl
  · rename_i m h ho
    apply Relation.ReflTransGen.head (.connect window ho)
    exact leads_settle { w with hub := h, sessions := w.sessions.push _ }

/-- A client sends something, or takes what it has been sent. -/
theorem leads_touch (w : World) (n : Nat) (f : Stream → Stream) :
    System.Leads p w.system (w.touch n f).system := by
  rw [touch]
  split
  · rename_i s hs
    have hread {w' : World} : (if s.reading = .ready then w'.enqueue (.reader n) else w').system =
        w'.system := by
      split
      · exact system_enqueue w' _
      · rfl
    apply Relation.ReflTransGen.head (.stream hs f)
    simp only
    split
    · rw [system_enqueue, hread]
      exact .refl
    · rw [hread]
      exact .refl
  · exact .refl

end Lobby.World
