import EngineMigrate.Project.Endpoint
import EngineMigrate.Proofs.Conversation
import EngineMigrate.Proofs.UrlForm

/-!
Where the API paths of an endpoint lead.  Paths come from the configuration, and only the slashes in front of
them are taken off before they are read against the endpoint.  Main statement: a path that names a place of its
own leads there from every endpoint, and any other stays on the endpoint's server, below its path exactly if it
enters again what it leaves.
-/
namespace EngineMigrate.Endpoint

open Url

def reference (e : Endpoint) (path : String) : Reference :=
  .ofText e.base.scheme (significant (String.ofList (path.toList.dropWhile (· == '/'))))

variable {e : Endpoint} {endpoint path : String} {headers : List (String × String)} {v : Url}

theorem urlFor_eq_ok_iff :
    e.urlFor path = .ok v ↔ e.base.join (String.ofList (path.toList.dropWhile (· == '/'))) = .ok v := by
  unfold urlFor
  cases e.base.join (String.ofList (path.toList.dropWhile (· == '/'))) <;> simp

theorem base_cases (h : create endpoint headers = .ok e) : (∃ ds, Hierarchical e.base (ds ++ [[]])) ∨
    isSpecial e.base.scheme = false ∧ ∃ text, e.base.path = .opaqueText text := by
  unfold create at h
  split at h
  next u hparse =>
    cases h
    exact asDirectory_cases (formed_parse hparse)
  next => cases h

/-- What an API path comes to, for each kind of place. -/
theorem comes_urlFor (hcreate : create endpoint headers = .ok e) (hurl : e.urlFor path = .ok v) :
    e.base.Comes (·.join (String.ofList (path.toList.dropWhile (· == '/')))) (e.reference path) ∧
      ∀ rooted text, e.reference path = .path rooted text → ∃ ds, Hierarchical e.base (ds ++ [[]]) := by
  obtain ⟨ds, hbase⟩ | ⟨hspecial, text, hpath⟩ := base_cases hcreate
  · exact ⟨comes_join hbase _, fun _ _ _ => ⟨ds, hbase⟩⟩
  · have hcomes := comes_join_of_opaque hpath hspecial (urlFor_eq_ok_iff.1 hurl)
    exact ⟨hcomes.1, fun rooted text h => absurd h (hcomes.2 rooted text)⟩

theorem urlFor_of_own (hcreate : create endpoint headers = .ok e) (hurl : e.urlFor path = .ok v)
    (hown : e.reference path ≠ .absolute) :
    v.OnServerOf e.base ∧ (e.base.path.text <+: v.path.text ↔ (e.reference path).Stays e.base) := by
  obtain ⟨hcomes, hbase⟩ := comes_urlFor hcreate hurl
  have hjoin := urlFor_eq_ok_iff.1 hurl
  generalize e.reference path = r at hcomes hbase hown
  cases hcomes with
  | absolute => exact absurd rfl hown
  | here hread server hpath =>
    obtain rfl := Except.ok.inj (hread.symm.trans hjoin)
    exact ⟨server, by simp [hpath, Reference.Stays]⟩
  | @path rooted text _ hread server hpath =>
    obtain rfl := Except.ok.inj (hread.symm.trans hjoin)
    obtain ⟨ds, hbase⟩ := hbase rooted text rfl
    exact ⟨server, hpath ▸ isPrefix_iff_stays hbase rooted text⟩

theorem urlFor_of_absolute (hcreate : create endpoint headers = .ok e) (hurl : e.urlFor path = .ok v)
    (habs : e.reference path = .absolute) (e' : Endpoint) (hscheme : e'.base.scheme = e.base.scheme)
    (hpath : ∃ list, e'.base.path = .segments list) : e'.urlFor path = .ok v := by
  have hcomes := (comes_urlFor hcreate hurl).1
  rw [habs] at hcomes
  cases hcomes with
  | absolute hread =>
    exact urlFor_eq_ok_iff.2 ((hread e'.base hscheme hpath).trans (urlFor_eq_ok_iff.1 hurl))

/-- A path that names a place of its own leads there from every endpoint of the scheme.  Any other leads to the
endpoint's server, below the endpoint's path exactly if it stays. -/
theorem urlFor_stays_iff (hcreate : create endpoint headers = .ok e) (hurl : e.urlFor path = .ok v) :
    (e.reference path = .absolute → ∀ e' : Endpoint, e'.base.scheme = e.base.scheme →
      (∃ list, e'.base.path = .segments list) → e'.urlFor path = .ok v) ∧
    (e.reference path ≠ .absolute → v.OnServerOf e.base ∧
      (e.base.path.text <+: v.path.text ↔ (e.reference path).Stays e.base)) :=
  ⟨urlFor_of_absolute hcreate hurl, urlFor_of_own hcreate hurl⟩

def localBase : Url :=
  ⟨"http".toList, [], some "localhost".toList, some 8080, .segments ["hasura".toList, []], none, none⟩

theorem create_local : create "http://localhost:8080/hasura" [] = .ok ⟨localBase, []⟩ :=
  eq_ok_of_toOption (by decide +kernel)

/-- A path may climb out of the endpoint's own and come back. -/
theorem urlFor_stays_climbing : ∃ (e : Endpoint) (v : Url),
    create "http://localhost:8080/hasura" [] = .ok e ∧ e.urlFor "x/../../hasura/v1/query" = .ok v ∧
    e.reference "x/../../hasura/v1/query" ≠ .absolute ∧ v.OnServerOf e.base ∧
    e.base.path.text = "/hasura/".toList ∧ v.path.text = "/hasura/v1/query".toList ∧
    (e.reference "x/../../hasura/v1/query").Stays e.base := by
  have hurl : urlFor ⟨localBase, []⟩ "x/../../hasura/v1/query" =
      .ok { localBase with path := .segments ["hasura".toList, "v1".toList, "query".toList] } :=
    eq_ok_of_toOption (by decide +kernel)
  have hown : reference ⟨localBase, []⟩ "x/../../hasura/v1/query" ≠ .absolute := by decide +kernel
  obtain ⟨hserver, hstays⟩ := (urlFor_stays_iff create_local hurl).2 hown
  exact ⟨_, _, create_local, hurl, hown, hserver, by decide, by decide, hstays.1 (by decide)⟩

/-- Backslashes are not taken off, though they are slashes too, nor are parent segments: a path may lead to another
server, or out of the endpoint's own path. -/
theorem urlFor_leaves : ∃ (e : Endpoint) (v w : Url),
    create "http://localhost:8080/hasura" [] = .ok e ∧
    e.urlFor "\\\\evil.example/v1/query" = .ok v ∧ ¬ v.OnServerOf e.base ∧
    e.urlFor "../v1/query" = .ok w ∧ ¬ e.base.path.text <+: w.path.text := by
  let elsewhere : Url :=
    ⟨"http".toList, [], some "evil.example".toList, none, .segments ["v1".toList, "query".toList], none, none⟩
  have hv : urlFor ⟨localBase, []⟩ "\\\\evil.example/v1/query" = .ok elsewhere :=
    eq_ok_of_toOption (by decide +kernel)
  have hw : urlFor ⟨localBase, []⟩ "../v1/query" = .ok { localBase with path := elsewhere.path } :=
    eq_ok_of_toOption (by decide +kernel)
  have hhost : elsewhere.host ≠ localBase.host := by decide
  exact ⟨_, _, _, create_local, hv, fun hserver => hhost hserver.host, hw, by decide⟩

end EngineMigrate.Endpoint
