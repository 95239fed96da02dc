import EngineMigrate.Proofs.ReadOnly

/-!
Questions to a server, and what they tell of a setting.  A question leaves the server as it is, and whoever
asks goes by the answer or fails with the refusal.  Main statements: the requests behind a look at a setting
are one, and what it tells is what is stored, or the default where nothing is.
-/
namespace EngineMigrate

theorem Statement.isQuery_selectSetting (name : String) : (Statement.selectSetting name).IsQuery := by
  rw [isQuery_iff]
  simp only [head]
  decide +kernel

namespace Server

variable {effect : Effect} {α β : Type} {s s' : Server} {reply : Reply}

theorem handles_told {t : Tables} {st : Statement} (h : Handles effect s (t.request st) reply s') :
    (reply.isAccepted = true ∧ st.execute s = some s' ∧ ∃ r, Tables.shown reply = .ok r ∧ st.Answers s r) ∨
      (reply.isAccepted = false ∧ s' = s ∧ ∃ e, Tables.shown reply = .error e) := by
  cases h with
  | refused hrej =>
    refine .inr ⟨hrej, rfl, ?_⟩
    cases hshown : Tables.shown reply with
    | ok r => exact absurd (Tables.isAccepted_of_shown hshown) (by simp [hrej])
    | error e => exact ⟨e, rfl⟩
  | executed hq hr hperforms =>
    cases hq
    obtain ⟨st', htext, he, r, hbody, ha⟩ := performs_statement hperforms
    obtain rfl := Statement.text_injective htext
    refine .inl ⟨hr, he, r, ?_, ha⟩
    simp only [Tables.shown, Response.decode, Response.checked, hr, if_true, bind, Except.bind, hbody]

/-- The exchange sends these requests one after the other, which leave the server as it is, until one of
them is refused.  It ends as `good` says if none is, and as `bad` says otherwise. -/
def Asks (effect : Effect) (s : Server) (good bad : α → Prop) : List Request → Exchange α → Prop
  | [], x => ∃ a, x = .done a ∧ good a
  | q :: qs, x => ∃ next, x = .send q next ∧ ∀ reply s', Handles effect s q reply s' → s' = s ∧
    (reply.isAccepted = true → Asks effect s good bad qs (next reply)) ∧
    (reply.isAccepted = false → ∃ a, next reply = .done a ∧ bad a)

variable {good bad : α → Prop} {qs : List Request}

theorem Asks.mono {x : Exchange α} {good' bad' : α → Prop} (h : Asks effect s good bad qs x)
    (hgood : ∀ a, good a → good' a) (hbad : ∀ a, bad a → bad' a) : Asks effect s good' bad' qs x := by
  induction qs generalizing x with
  | nil =>
    obtain ⟨a, rfl, ha⟩ := h
    exact ⟨a, rfl, hgood a ha⟩
  | cons q qs ih =>
    obtain ⟨next, rfl, hnext⟩ := h
    refine ⟨next, rfl, fun reply s' hr => ?_⟩
    obtain ⟨hsame, hacc, hrej⟩ := hnext reply s' hr
    refine ⟨hsame, fun hreply => ih (hacc hreply), fun hreply => ?_⟩
    obtain ⟨a, ha, hba⟩ := hrej hreply
    exact ⟨a, ha, hbad a hba⟩

theorem Asks.map {x : Exchange α} {f : α → β} {good' bad' : β → Prop} (h : Asks effect s good bad qs x)
    (hgood : ∀ a, good a → good' (f a)) (hbad : ∀ a, bad a → bad' (f a)) :
    Asks effect s good' bad' qs (x >>= fun a => .done (f a)) := by
  induction qs generalizing x with
  | nil =>
    obtain ⟨a, rfl, ha⟩ := h
    exact ⟨f a, rfl, hgood a ha⟩
  | cons q qs ih =>
    obtain ⟨next, rfl, hnext⟩ := h
    refine ⟨_, rfl, fun reply s' hr => ?_⟩
    obtain ⟨hsame, hacc, hrej⟩ := hnext reply s' hr
    refine ⟨hsame, fun hreply => ih (hacc hreply), fun hreply => ?_⟩
    obtain ⟨a, ha, hba⟩ := hrej hreply
    exact ⟨f a, by rw [ha]; rfl, hbad a hba⟩

theorem asks_query {t : Tables} {st : Statement} (hst : st.IsQuery) {next : Reply → Exchange α}
    (hshown : ∀ reply r, Tables.shown reply = .ok r → st.Answers s r → Asks effect s good bad qs (next reply))
    (hrefused : ∀ reply e, Tables.shown reply = .error e → ∃ a, next reply = .done a ∧ bad a) :
    Asks effect s good bad (t.request st :: qs) (.send (t.request st) next) := by
  refine ⟨next, rfl, fun reply s' hr => ?_⟩
  rcases handles_told hr with ⟨hacc, he, r, hresult, ha⟩ | ⟨hrej, rfl, e, he⟩
  · obtain rfl := Statement.eq_of_isQuery hst he
    exact ⟨rfl, fun _ => hshown reply r hresult ha, fun hrej => absurd hacc (by simp [hrej])⟩
  · exact ⟨rfl, fun hacc => absurd hacc (by simp [hrej]), fun _ => hrefused reply e he⟩

theorem asks_read {store : LedgerStore} {next : Reply → Exchange α}
    (hfound : ∀ reply, LedgerStore.found reply = s.ledger → Asks effect s good bad qs (next reply))
    (hrefused : ∀ reply e, LedgerStore.found reply = .error e → ∃ a, next reply = .done a ∧ bad a) :
    Asks effect s good bad (store.readRequest :: qs) (.send store.readRequest next) := by
  refine ⟨next, rfl, fun reply s' hr => ?_⟩
  cases hr with
  | refused hrej =>
    refine ⟨rfl, fun hacc => absurd hacc (by simp [hrej]), fun _ => ?_⟩
    cases hshown : LedgerStore.found reply with
    | error e => exact hrefused reply e hshown
    | ok st =>
      obtain ⟨response, c, rfl, hs, -⟩ := LedgerStore.found_eq_ok hshown
      exact absurd (hs.symm.trans hrej) (by simp)
  | executed hq hs hperforms =>
    cases hq
    obtain ⟨rfl, hshown⟩ := found_of_performs hs hperforms
    exact ⟨rfl, fun _ => hfound _ hshown, fun hrej => absurd (hs.symm.trans hrej) (by simp)⟩

/-- The value is stored as the setting, or nothing is and it is the default. -/
def Tells (s : Server) (name default value : String) : Prop :=
  (name, value) ∈ s.settings.getD [] ∨ (∀ row ∈ s.settings.getD [], row.1 ≠ name) ∧ value = default

end Server

theorem Statement.tells_of_answers {name default : String} {s : Server} {r : SqlResult}
    (h : (Statement.selectSetting name).Answers s r) :
    s.Tells name default ((Tables.firstCell? r).getD default) := by
  obtain ⟨rows, hperm, rfl⟩ := h
  have hmem : ∀ row, row ∈ rows ↔ row ∈ s.settings.getD [] ∧ row.1 = name := fun row => by
    rw [hperm.mem_iff, List.mem_filter, beq_iff_eq]
  cases rows with
  | nil => exact .inr ⟨fun row hrow hname => absurd ((hmem row).2 ⟨hrow, hname⟩) List.not_mem_nil, rfl⟩
  | cons row rows =>
    obtain ⟨hrow, rfl⟩ := (hmem row).1 List.mem_cons_self
    exact .inl hrow

theorem Tables.asks_getSetting {effect : Server.Effect} (t : Tables) (s : Server) {name default : String}
    (hname : Settings.defaultOf name = .ok default) :
    Server.Asks effect s (fun r => ∃ value, r = .ok value ∧ s.Tells name default value)
      (fun r => ∃ e, r = .error e) [t.request (.selectSetting name)] (ExceptT.run (t.getSetting name)) := by
  rw [run_getSetting, hname]
  refine Server.asks_query (Statement.isQuery_selectSetting name) (fun reply r hr ha => ?_)
    fun reply e he => ⟨_, rfl, e, by rw [he]; rfl⟩
  exact ⟨_, rfl, _, by rw [hr]; rfl, Statement.tells_of_answers ha⟩

end EngineMigrate
