import EngineMigrate.Proofs.LiveSessions

/-!
A driver in use with everything it has given out, whose owner may also have it apply sources.  Main
statement: what every commit and every question to the server maintains is maintained by all that can be
asked of the driver and of its sessions.
-/
namespace EngineMigrate

namespace Driver

variable {κ : Type} {p : Peer κ} {I : Driver → κ → Prop} {ok : Operation → Prop}
variable {t : FileTree} {source : Source} {target : Target} {options : ApplyOptions}

theorem maintains_apply_of (hfree : ∀ d b q, I d q → I { d with locked := b } q)
    (hscan : Action.Maintains p I scan)
    (hcommit : ∀ s : Session, s.Holds ok → Action.Maintains p I (commit s))
    (hstages : ∀ (s staged : Session) plan, s.Holds ok →
      s.stagePlan t source options.skipExecution plan = .ok staged → staged.Holds ok) :
    Action.Maintains p I (apply t source target options) := by
  rw [apply_eq]
  refine hscan.bind fun _ => ?_
  intro d q h
  cases ends_applyScanned t source target options d with
  | unplanned _ hend | idle _ _ hend | refused _ _ _ _ hend | unstaged _ _ _ _ _ hend =>
    rw [hend]
    exact h
  | committed _ _ _ _ hstage hend =>
    rw [hend]
    have hunlock := maintains_unlock hfree (hcommit _ (hstages _ _ _ (Session.holds_start _ _) hstage))
    exact (hunlock _ q (hfree d true q h)).bind fun r q' hr => hr

end Driver

namespace Demand

def Stages (ok : Operation → Prop) : Demand → Prop
  | .run _ content kind file => (Call.run content kind file).Stages ok
  | .apply t source _ options => ∀ (s staged : Session) plan, s.Holds ok →
    s.stagePlan t source options.skipExecution plan = .ok staged → staged.Holds ok
  | _ => True

end Demand

namespace Holdings

variable {κ : Type} {p : Peer κ} {I : Driver → κ → Prop} {ok : Operation → Prop} {h : Holdings} {q : κ}

/-- The driver and the peer are as `I` says, and the operations in its sessions as `ok` says. -/
def Keeps (I : Driver → κ → Prop) (ok : Operation → Prop) (h : Holdings) (q : κ) : Prop :=
  I h.driver q ∧ ∀ s ∈ h.alive, s.Holds ok

theorem always_drive {α : Type} {x : Driver.Act α} (hx : Action.Maintains p I x) (hk : h.Keeps I ok q) :
    (drive x h).Always p (fun r q' => r.2.Keeps I ok q') q := by
  apply (hx h.driver q hk.1).bind
  intro r q' hr
  exact ⟨hr, hk.2⟩

theorem always_stage {i : Nat} {f : Session → Except DriverFault Unit × Session}
    (hf : ∀ s : Session, s.Holds ok → (f s).2.Holds ok) (hk : h.Keeps I ok q) :
    (stage i f h).Always p (fun r q' => r.2.Keeps I ok q') q := by
  unfold stage
  split
  · rename_i s hs
    refine ⟨hk.1, fun s' hs' => ?_⟩
    rcases List.mem_or_eq_of_mem_set hs' with hold | rfl
    · exact hk.2 s' hold
    · exact hf s (hk.2 s (List.mem_of_getElem? hs))
  · exact hk

/-- The rule for demands: what a scan, every commit and the settings maintain, a demand maintains. -/
theorem always_perform {c : Demand} (hfree : ∀ d b q, I d q → I { d with locked := b } q)
    (hscan : Action.Maintains p I Driver.scan)
    (hcommit : ∀ s : Session, s.Holds ok → Action.Maintains p I (Driver.commit s))
    (hget : ∀ name, Action.Maintains p I (Driver.getSetting name))
    (hupdate : ∀ name value, c = .updateSetting name value →
      Action.Maintains p I (Driver.updateSetting name value))
    (hok : c.Stages ok) (hk : h.Keeps I ok q) :
    (c.perform h).Always p (fun r q' => r.2.Keeps I ok q') q := by
  cases c with
  | lock =>
    simp only [Demand.perform, lock, Driver.lock_apply, Exchange.done_bind]
    cases h.driver.locked with
    | true => exact hk
    | false => exact ⟨hfree h.driver true q hk.1, List.forall_mem_cons.2 ⟨Session.holds_start _ _, hk.2⟩⟩
  | run i content kind file => exact always_stage (fun s hs => hs.run hok) hk
  | change i c => exact always_stage (fun s hs => hs.change c) hk
  | reset i => exact always_stage (fun s _ => s.holds_reset) hk
  | drop i =>
    simp only [Demand.perform, drop]
    split
    · exact ⟨hfree h.driver false q hk.1, fun s hs => hk.2 s (List.mem_of_mem_eraseIdx hs)⟩
    · exact hk
  | unlock i =>
    simp only [Demand.perform, unlock]
    split
    · rename_i s hs
      have hcommits := hcommit s (hk.2 s (List.mem_of_getElem? hs))
      apply (Driver.maintains_unlock hfree hcommits h.driver q hk.1).bind
      intro r q' hr
      exact ⟨hr, fun s' hs' => hk.2 s' (List.mem_of_mem_eraseIdx hs')⟩
    · exact hk
  | record c =>
    refine always_drive (Driver.maintains_record hfree fun s hbulk _ => hcommit s ?_) hk
    simp [Session.Holds, hbulk, Bulk.empty]
  | apply t source target options =>
    exact always_drive (Driver.maintains_apply_of hfree hscan hcommit hok) hk
  | scan => exact always_drive hscan hk
  | getSetting name => exact always_drive (hget name) hk
  | updateSetting name value => exact always_drive (hupdate name value rfl) hk

theorem always_performAll {cs : List Demand}
    (hstep : ∀ c ∈ cs, ∀ h q, Keeps I ok h q → (c.perform h).Always p (fun r q' => r.2.Keeps I ok q') q)
    (hk : h.Keeps I ok q) : (Demand.performAll cs h).Always p (fun h' q' => h'.Keeps I ok q') q := by
  induction cs generalizing h q with
  | nil => exact hk
  | cons c cs ih =>
    apply (hstep c List.mem_cons_self h q hk).bind
    intro r q' hr
    exact ih (fun c' hc' => hstep c' (List.mem_cons_of_mem _ hc')) hr

end Holdings

end EngineMigrate
