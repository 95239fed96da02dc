import EngineMigrate.Proofs.EndpointReach
import Mathlib.Data.List.TakeWhile

/-!
API paths of characters that mean nothing but themselves, such as letters, digits, hyphens and slashes, and of
no dot segments.  Main statement: such a path stays below every endpoint.
-/
namespace EngineMigrate

namespace Url

variable {b : Url} {cs : List Char} {c : Char}

/-- A character that stands for itself and nothing else in a path, the slash included. -/
def isLiteral (c : Char) : Bool := !isPathEscaped c && !([':', '|', '\\'].contains c)

theorem isPathEscaped_of_mark (h : isOuterBlank c = true ∨ isSkipped c = true ∨ endsPath c = true) :
    isPathEscaped c = true := by
  rcases h with h | h | h
  · by_cases hspace : c = ' '
    · rw [hspace]
      decide
    · have hle : c.toNat ≤ 32 := by simpa [isOuterBlank] using h
      have hne : c.toNat ≠ 32 := fun heq => hspace (Char.toNat_inj.1 heq)
      have hcontrol : isControl c = true := by simp only [isControl, Bool.or_eq_true, decide_eq_true_eq]; omega
      simp [isPathEscaped, isFragmentEscaped, hcontrol]
  · obtain (rfl | rfl) | rfl : (c = '\t' ∨ c = '\n') ∨ c = '\r' := by simpa [isSkipped] using h
    · decide
    · decide
    · decide
  · obtain rfl | rfl := endsPath_eq_true_iff.1 h
    · decide
    · decide

structure Literal (c : Char) : Prop where
  visible : isOuterBlank c = false
  kept : isSkipped c = false
  inPath : endsPath c = false
  written : isPathEscaped c = false
  other : c ∉ [':', '|', '\\']

theorem literal_of_isLiteral (h : isLiteral c = true) : Literal c := by
  obtain ⟨hwritten, hother⟩ : isPathEscaped c = false ∧ c ∉ [':', '|', '\\'] := by
    simpa [isLiteral] using h
  have hmark := mt isPathEscaped_of_mark (Bool.not_eq_true _ ▸ hwritten)
  simp only [not_or, Bool.not_eq_true] at hmark
  exact ⟨hmark.1, hmark.2.1, hmark.2.2, hwritten, hother⟩

theorem significant_of_literal (h : ∀ c ∈ cs, Literal c) : significant (String.ofList cs) = cs := by
  have hblank (cs : List Char) (h : ∀ c ∈ cs, Literal c) : cs.dropWhile isOuterBlank = cs := by
    cases cs with
    | nil => rfl
    | cons c cs => exact List.dropWhile_cons_of_neg (by simp [(h c List.mem_cons_self).visible])
  have hreverse : ∀ c ∈ cs.reverse, Literal c := fun c hc => h c (List.mem_reverse.1 hc)
  simp only [significant, String.toList_ofList, hblank cs h, hblank cs.reverse hreverse, List.reverse_reverse]
  exact List.filter_eq_self.2 fun c hc => by simp [(h c hc).kept]

theorem splitScheme_of_no_colon (h : ':' ∉ cs) : splitScheme cs = none := by
  unfold splitScheme
  dsimp only
  split
  · split
    next rest hrest => exact absurd ((List.dropWhile_suffix _).mem (hrest ▸ List.mem_cons_self)) h
    next => rfl
  · rfl

theorem startsWithDrive_of_literal (h : ∀ c ∈ cs, Literal c) : startsWithDrive cs = false := by
  rw [Bool.eq_false_iff]
  intro hdrive
  unfold startsWithDrive isDrive at hdrive
  split at hdrive
  next c d htake =>
    have hd : d ∈ cs.takeWhile fun c => !isSlash c && !endsPath c := by simp [htake]
    have hother := (h d ((List.takeWhile_prefix _).mem hd)).other
    simp_all
  next => cases hdrive

theorem ofText_of_literal {scheme : List Char} (hc : c ≠ '/') (h : ∀ d ∈ c :: cs, Literal d) :
    Reference.ofText scheme (c :: cs) = .path false (c :: cs) := by
  have hcolon : ':' ∉ c :: cs := fun hmem => (h ':' hmem).other (by simp)
  have hfirst := h c List.mem_cons_self
  have hslash : isSlash c = false := by
    have hother := hfirst.other
    simp_all [isSlash]
  have htake : (c :: cs).takeWhile (!endsPath ·) = c :: cs :=
    List.takeWhile_eq_self_iff.2 fun d hd => by simp [(h d hd).inPath]
  rw [Reference.ofText, Reference.ownPart, splitScheme_of_no_colon hcolon]
  dsimp only
  rw [Reference.ofPart, hslash, if_neg Bool.false_ne_true, hfirst.inPath, if_neg Bool.false_ne_true,
    startsWithDrive_of_literal h, Bool.and_false, if_neg Bool.false_ne_true, htake]

theorem stays_of_literal (h : ∀ c ∈ cs, Literal c) (hdots : ∀ s ∈ cs.splitOn '/', dotCount? s = none) :
    (Reference.path false cs).Stays b := by
  have hback : (cs.map fun c => if isSpecial b.scheme && c == '\\' then '/' else c) = cs := by
    refine (List.map_congr_left fun c hc => if_neg ?_).trans (List.map_id cs)
    have hother := (h c hc).other
    simp_all
  refine stays_of_no_parent fun s hs n hn => ?_
  rw [splitPath, hback] at hs
  have hwritten : ∀ c ∈ s, isPathEscaped c = false := fun c hc => (h c (Text.mem_of_mem_splitOn hs hc).1).written
  rw [encode_eq_self hwritten, hdots s hs] at hn
  cases hn

end Url

namespace Endpoint

open Url

variable {e : Endpoint} {endpoint path : String} {headers : List (String × String)} {v : Url}

theorem reference_of_literal (e : Endpoint) (hliteral : path.toList.all isLiteral = true)
    (hpath : path.toList.any (· != '/') = true) :
    e.reference path = .path false (path.toList.dropWhile (· == '/')) ∧
      ∀ c ∈ path.toList.dropWhile (· == '/'), Literal c := by
  have hrest : ∀ c ∈ path.toList.dropWhile (· == '/'), Literal c := fun c hc =>
    literal_of_isLiteral (List.all_eq_true.1 hliteral c ((List.dropWhile_suffix _).mem hc))
  refine ⟨?_, hrest⟩
  rw [reference, significant_of_literal hrest]
  cases hcut : path.toList.dropWhile (· == '/') with
  | nil =>
    obtain ⟨c, hc, hslash⟩ := List.any_eq_true.1 hpath
    have heq := List.dropWhile_eq_nil_iff.1 hcut c hc
    simp_all
  | cons c cs =>
    have hc : c ≠ '/' := by
      have hne : path.toList.dropWhile (· == '/') ≠ [] := by simp [hcut]
      simpa [hcut] using List.head_dropWhile_not (· == '/') hne
    rw [hcut] at hrest
    exact ofText_of_literal hc hrest

/-- An API path of literal characters and no dot segments stays below every endpoint. -/
theorem urlFor_of_literal (hcreate : create endpoint headers = .ok e) (hurl : e.urlFor path = .ok v)
    (hliteral : path.toList.all isLiteral = true) (hpath : path.toList.any (· != '/') = true)
    (hdots : ∀ s ∈ path.toList.splitOn '/', dotCount? s = none) :
    v.OnServerOf e.base ∧ e.base.path.text <+: v.path.text := by
  obtain ⟨href, hrest⟩ := reference_of_literal e hliteral hpath
  obtain ⟨hserver, hstays⟩ := urlFor_of_own hcreate hurl (by rw [href]; nofun)
  rw [href] at hstays
  exact ⟨hserver, hstays.2 (stays_of_literal hrest fun s hs => hdots s (Text.mem_splitOn_of_dropWhile hs))⟩

example : ∀ path ∈ [ApiPaths.default.query, ApiPaths.default.metadata, ApiPaths.default.v2Query,
    ApiPaths.default.version], path.toList.all isLiteral = true ∧ path.toList.any (· != '/') = true ∧
      ∀ s ∈ path.toList.splitOn '/', dotCount? s = none := by
  decide

end Endpoint

end EngineMigrate
