import EngineMigrate.Proofs.UrlPath

/-!
References against a base.  A reference names a place of its own, or it changes only what stands behind the
path of the base, or it has a path that starts at the directory or the root of the base.  Main statement: in
the first case the base has no say beyond its scheme, in the others the server stays and the path goes the
course that is written.
-/
namespace EngineMigrate.Url

/-- What kind of place a reference names, as far as this can be told from its text and the base's scheme. -/
inductive Reference where
  /-- A place of its own: another scheme, a server, or a drive. -/
  | absolute
  /-- The base itself with another query or fragment. -/
  | here
  /-- A path from the root or else from the directory of the base. -/
  | path (rooted : Bool) (text : List Char)
deriving DecidableEq

namespace Reference

/-- What a text names behind a scheme that is the base's own, or without one. -/
def ofPart (scheme : List Char) : List Char → Reference
  | [] => .here
  | c :: cs =>
    if isSlash c then
      if cs.head?.any isSlash || (isFile scheme && startsWithDrive cs) then .absolute
      else .path true (cs.takeWhile (!endsPath ·))
    else if endsPath c then .here
    else if isFile scheme && startsWithDrive (c :: cs) then .absolute
    else .path false ((c :: cs).takeWhile (!endsPath ·))

/-- The text without the scheme of the base, which only the well-known ones may leave out; nothing if it has
another scheme. -/
def ownPart (scheme cs : List Char) : Option (List Char) :=
  match splitScheme cs with
  | none => some cs
  | some (s, rest) => if s = scheme && isSpecial scheme then some rest else none

def ofText (scheme cs : List Char) : Reference :=
  match ownPart scheme cs with
  | none => .absolute
  | some rest => ofPart scheme rest

end Reference

variable {b v : Url} {s : String} {cs rest : List Char} {list : List (List Char)}

/-- The same scheme, host and port. -/
structure OnServerOf (v b : Url) : Prop where
  scheme : v.scheme = b.scheme
  host : v.host = b.host
  port : v.port = b.port

/-- The root of a path, which for a file may be on a drive. -/
def root (b : Url) : List (List Char) :=
  match b.path with
  | .segments (s :: _) => if isFile b.scheme && isDrive s then [s] else []
  | _ => []

def start (b : Url) (rooted : Bool) : List (List Char) := if rooted then b.root else b.directory

/-- What holds of a file's URL with a path of segments: it has a host and no port, a drive is on no host but its
own, and no empty segment stands in front. -/
structure OnDisk (b : Url) (list : List (List Char)) : Prop where
  port : b.port = none
  host : ∃ host, b.host = some host ∧ (b.root ≠ [] → host = [])
  front : ∀ s more, list ≠ [] :: s :: more

/-- A URL with a path of segments. -/
structure Hierarchical (b : Url) (list : List (List Char)) : Prop where
  path : b.path = .segments list
  slashless : Slashless list
  onDisk : isFile b.scheme = true → OnDisk b list

/-- What a way of reading comes to at a base, for each kind of reference. -/
inductive Comes (b : Url) (read : Url → Except UrlFault Url) : Reference → Prop where
  | absolute (h : ∀ b' : Url, b'.scheme = b.scheme → (∃ list, b'.path = .segments list) → read b' = read b) :
    Comes b read .absolute
  | here {v : Url} (h : read b = .ok v) (server : v.OnServerOf b) (path : v.path = b.path) : Comes b read .here
  | path {rooted : Bool} {text : List Char} {v : Url} (h : read b = .ok v) (server : v.OnServerOf b)
    (path : v.path = .segments (resolve (isSpecial b.scheme) (isFile b.scheme) (b.start rooted) text)) :
    Comes b read (.path rooted text)

theorem endsPath_eq_true_iff {c : Char} : endsPath c = true ↔ c = '?' ∨ c = '#' := by
  simp [endsPath]

theorem ne_of_not_endsPath {c : Char} (h : ¬ endsPath c = true) : c ≠ '?' ∧ c ≠ '#' :=
  not_or.1 (mt endsPath_eq_true_iff.2 h)

theorem not_endsPath_of_isSlash {c : Char} (h : isSlash c = true) : ¬ endsPath c = true := by
  intro hends
  obtain rfl | rfl := endsPath_eq_true_iff.1 hends
  · exact absurd h (by decide)
  · exact absurd h (by decide)

theorem comes_parseRelative (hfile : isFile b.scheme = false) (cs : List Char) :
    Comes b (parseRelative · cs) (.ofPart b.scheme cs) := by
  have hroot : b.root = [] := by
    unfold root
    split <;> simp [hfile]
  -- one case for each way to classify: nothing, slashes, a path from the root, what stands behind a path, a
  -- drive, a path from the directory
  fun_cases Reference.ofPart b.scheme cs with
  | case1 => exact .here rfl ⟨rfl, rfl, rfl⟩ rfl
  | case2 c cs hc habs =>
    obtain ⟨d, more, rfl, hd⟩ : ∃ d more, cs = d :: more ∧ isSlash d = true := by
      cases cs <;> simp_all
    obtain ⟨hq, hh⟩ := ne_of_not_endsPath (not_endsPath_of_isSlash hc)
    refine .absolute fun b' hb' _ => ?_
    simp only [parseRelative, hq, hh, hc, hd, hb', if_true, if_false]
  | case3 c cs hc habs =>
    obtain ⟨hq, hh⟩ := ne_of_not_endsPath (not_endsPath_of_isSlash hc)
    refine .path (v := b.withPath [] cs) ?_ ⟨rfl, rfl, rfl⟩ ?_
    · cases cs with
      | nil => simp only [parseRelative, hq, hh, hc, if_true, if_false]
      | cons d more =>
        have hd : isSlash d = false := by simp_all
        simp only [parseRelative, hq, hh, hc, hd, if_true, if_false, Bool.false_eq_true]
    · rw [start, if_pos rfl, hroot]
      rfl
  | case4 c cs hc hends =>
    obtain rfl | rfl := endsPath_eq_true_iff.1 hends
    · exact .here (v := { b with query := _, fragment := _ }) rfl ⟨rfl, rfl, rfl⟩ rfl
    · exact .here (v := b.withFragment cs) rfl ⟨rfl, rfl, rfl⟩ rfl
  | case5 c cs hc hends hdrive => simp [hfile] at hdrive
  | case6 c cs hc hends hdrive =>
    obtain ⟨hq, hh⟩ := ne_of_not_endsPath hends
    refine .path (v := b.withPath b.directory (c :: cs)) ?_ ⟨rfl, rfl, rfl⟩ rfl
    simp only [parseRelative, hq, hh, hc, if_false, Bool.false_eq_true]

theorem fromRoot_withPath (hb : Hierarchical b list) (hfile : isFile b.scheme = true)
    (hdrive : startsWithDrive cs = false) :
    (parseFile.fromRoot (some b) cs).OnServerOf b ∧ (parseFile.fromRoot (some b) cs).path =
      .segments (resolve (isSpecial b.scheme) (isFile b.scheme) b.root (cs.takeWhile (!endsPath ·))) := by
  have hlist := hb.path
  obtain ⟨hport, ⟨host, hhost, hroot⟩, -⟩ := hb.onDisk hfile
  have hscheme : b.scheme = "file".toList := by simpa [isFile] using hfile
  cases list with
  | nil =>
    simp only [parseFile.fromRoot, hdrive, hlist, hhost, root]
    exact ⟨⟨hscheme.symm, hhost.symm, hport.symm⟩, by rw [hscheme]; rfl⟩
  | cons s more =>
    by_cases hs : isDrive s = true
    · have hroot' : b.root = [s] := by simp [root, hlist, hfile, hs]
      simp only [parseFile.fromRoot, hdrive, hlist, hs, hroot', if_true]
      have hhost' : b.host = some [] := by rw [hhost, hroot (by simp [hroot'])]
      exact ⟨⟨hscheme.symm, hhost'.symm, hport.symm⟩, by rw [hscheme]; rfl⟩
    · have hroot' : b.root = [] := by simp [root, hlist, hs]
      simp only [parseFile.fromRoot, hdrive, hlist, hhost, hs, hroot']
      exact ⟨⟨hscheme.symm, hhost.symm, hport.symm⟩, by rw [hscheme]; rfl⟩

theorem comes_parseFile (hb : Hierarchical b list) (hfile : isFile b.scheme = true) (cs : List Char) :
    Comes b (fun u => parseFile (some u) cs) (.ofPart b.scheme cs) := by
  fun_cases Reference.ofPart b.scheme cs with
  | case1 => exact .here rfl ⟨rfl, rfl, rfl⟩ rfl
  | case2 c cs hc habs =>
    refine .absolute fun b' _ _ => ?_
    cases cs with
    | nil => simp [startsWithDrive, isDrive] at habs
    | cons d more =>
      by_cases hd : isSlash d = true
      · simp only [parseFile, hc, hd, if_true]
      · have hdrive : startsWithDrive (d :: more) = true := by simp_all
        simp only [parseFile, parseFile.fromRoot, hc, hd, hdrive, if_true]
  | case3 c cs hc habs =>
    have hdrive : startsWithDrive cs = false := by
      cases h : startsWithDrive cs <;> simp_all
    obtain ⟨hserver, hpath⟩ := fromRoot_withPath hb hfile hdrive
    refine .path ?_ hserver hpath
    cases cs with
    | nil => simp only [parseFile, hc, if_true]
    | cons d more =>
      have hd : isSlash d = false := by simp_all
      simp only [parseFile, hc, hd, if_true, if_false, Bool.false_eq_true]
  | case4 c cs hc hends =>
    obtain rfl | rfl := endsPath_eq_true_iff.1 hends
    · exact .here (v := { b with query := _, fragment := _ }) rfl ⟨rfl, rfl, rfl⟩ rfl
    · exact .here (v := b.withFragment cs) rfl ⟨rfl, rfl, rfl⟩ rfl
  | case5 c cs hc hends hdrive =>
    refine .absolute fun b' _ _ => ?_
    obtain ⟨hq, hh⟩ := ne_of_not_endsPath hends
    have hdrive' : startsWithDrive (c :: cs) = true := by simp_all
    simp only [parseFile, hc, hq, hh, hdrive', if_true, if_false, Bool.false_eq_true]
  | case6 c cs hc hends hdrive =>
    obtain ⟨hq, hh⟩ := ne_of_not_endsPath hends
    have hdrive' : startsWithDrive (c :: cs) = false := by simp_all
    refine .path (v := b.withPath b.directory (c :: cs)) ?_ ⟨rfl, rfl, rfl⟩ rfl
    simp only [parseFile, hc, hq, hh, hdrive', if_false, Bool.false_eq_true]

theorem Comes.congr {read read' : Url → Except UrlFault Url} {r : Reference} (hb : Hierarchical b list)
    (h : ∀ b' : Url, b'.scheme = b.scheme → (∃ list, b'.path = .segments list) → read' b' = read b')
    (hcomes : Comes b read r) : Comes b read' r := by
  have hself : read' b = read b := h b rfl ⟨list, hb.path⟩
  cases hcomes with
  | absolute hread =>
    refine .absolute fun b' hscheme hlist => ?_
    rw [h b' hscheme hlist, hself, hread b' hscheme hlist]
  | here hread server path => exact .here (hself.trans hread) server path
  | path hread server path => exact .path (hself.trans hread) server path

theorem join_of_no_scheme (hscheme : splitScheme (significant s) = none) (hlist : ∃ list, b.path = .segments list) :
    b.join s = if isFile b.scheme then parseFile (some b) (significant s) else parseRelative b (significant s) := by
  obtain ⟨list, hlist⟩ := hlist
  simp only [join, parseAgainst, hscheme, hlist]
  split
  next _ _ rest hfragment =>
    rw [hfragment]
    split <;> rfl
  next _ _ text hpath _ => cases hpath
  next => rfl

/-- A base has no say in a reference that is not a part of its own. -/
theorem join_eq_parse (h : Reference.ownPart b.scheme (significant s) = none) : b.join s = parse s := by
  obtain ⟨scheme, rest, hsplit, hother⟩ : ∃ scheme rest, splitScheme (significant s) = some (scheme, rest) ∧
      ¬ (scheme = b.scheme ∧ isSpecial b.scheme = true) := by
    unfold Reference.ownPart at h
    split at h
    · cases h
    · next scheme rest hsplit => exact ⟨scheme, rest, hsplit, by simpa using h⟩
  simp only [join, parse, parseAgainst, hsplit, parseWithScheme]
  by_cases hfile : isFile scheme = true
  · have hbase : isFile b.scheme = false := by
      rw [Bool.eq_false_iff]
      intro hbase
      have hsame : scheme = b.scheme := by
        have hown : scheme = "file".toList := by simpa [isFile] using hfile
        have hbase' : b.scheme = "file".toList := by simpa [isFile] using hbase
        rw [hown, hbase']
      exact hother ⟨hsame, by simp [isSpecial, hbase]⟩
    simp only [hfile, Option.filter_some, hbase, Option.filter_none, if_true, Bool.false_eq_true, if_false]
  · by_cases hspecial : isSpecial scheme = true
    · have hne : b.scheme ≠ scheme := fun h => hother ⟨h.symm, h ▸ hspecial⟩
      simp only [hfile, hspecial, hne, decide_false, Bool.and_false, if_true, if_false, Bool.false_eq_true]
    · simp only [hfile, hspecial, if_false, Bool.false_eq_true]

theorem comes_absolute (h : Reference.ownPart b.scheme (significant s) = none) : Comes b (·.join s) .absolute :=
  .absolute fun _ hscheme _ => (join_eq_parse (hscheme ▸ h)).trans (join_eq_parse h).symm

/-- A well-known scheme may be the base's own, and then a path may follow it without slashes. -/
theorem join_of_own_scheme (hsplit : splitScheme (significant s) = some (b.scheme, rest))
    (hspecial : isSpecial b.scheme = true) :
    b.join s =
      if isFile b.scheme then parseFile (some b) rest
      else if (rest.takeWhile isSlash).length < 2 then parseRelative b rest
      else parseAuthority b.scheme (rest.dropWhile isSlash) := by
  simp only [join, parseAgainst, hsplit, parseWithScheme, hspecial, if_true, decide_true, Bool.and_true,
    decide_eq_true_eq]
  split
  next hfile => simp only [Option.filter_some, hfile, if_true]
  next => rfl

theorem ofPart_of_two_slashes {scheme : List Char} (h : 2 ≤ (rest.takeWhile isSlash).length) :
    Reference.ofPart scheme rest = .absolute := by
  match rest with
  | [] => simp at h
  | [c] => cases hc : isSlash c <;> simp [hc] at h
  | c :: d :: more => cases hc : isSlash c <;> cases hd : isSlash d <;> simp_all [Reference.ofPart]

theorem ownPart_eq_some {scheme : List Char} (h : Reference.ownPart scheme cs = some rest) :
    splitScheme cs = none ∧ rest = cs ∨ splitScheme cs = some (scheme, rest) ∧ isSpecial scheme = true := by
  unfold Reference.ownPart at h
  split at h
  next hsplit => exact .inl ⟨hsplit, (Option.some.inj h).symm⟩
  next own rest' hsplit =>
    split at h
    next hown =>
      obtain ⟨rfl, hspecial⟩ : own = scheme ∧ isSpecial scheme = true := by simpa using hown
      exact .inr ⟨Option.some.inj h ▸ hsplit, hspecial⟩
    next => cases h

/-- Every reference comes to what its kind says at a base with a path of segments. -/
theorem comes_join (hb : Hierarchical b list) (s : String) :
    Comes b (·.join s) (.ofText b.scheme (significant s)) := by
  unfold Reference.ofText
  cases hown : Reference.ownPart b.scheme (significant s) with
  | none => exact comes_absolute hown
  | some rest =>
    change Comes b (·.join s) (.ofPart b.scheme rest)
    have hfile (b' : Url) (h : b'.scheme = b.scheme) : isFile b'.scheme = isFile b.scheme := by rw [h]
    cases hbase : isFile b.scheme with
    | true =>
      refine (comes_parseFile hb hbase rest).congr hb fun b' hscheme hlist => ?_
      obtain ⟨hsplit, rfl⟩ | ⟨hsplit, hspecial⟩ := ownPart_eq_some hown
      · rw [join_of_no_scheme hsplit hlist, hfile b' hscheme, hbase, if_pos rfl]
      · rw [join_of_own_scheme (hscheme ▸ hsplit) (hscheme ▸ hspecial), hfile b' hscheme, hbase, if_pos rfl]
    | false =>
      obtain ⟨hsplit, rfl⟩ | ⟨hsplit, hspecial⟩ := ownPart_eq_some hown
      · refine (comes_parseRelative hbase (significant s)).congr hb fun b' hscheme hlist => ?_
        rw [join_of_no_scheme hsplit hlist, hfile b' hscheme, hbase, if_neg Bool.false_ne_true]
      · by_cases hslashes : (rest.takeWhile isSlash).length < 2
        · refine (comes_parseRelative hbase rest).congr hb fun b' hscheme _ => ?_
          rw [join_of_own_scheme (hscheme ▸ hsplit) (hscheme ▸ hspecial), hfile b' hscheme, hbase,
            if_neg Bool.false_ne_true, if_pos hslashes]
        · rw [ofPart_of_two_slashes (Nat.le_of_not_lt hslashes)]
          refine .absolute fun b' hscheme _ => ?_
          have hjoin (b' : Url) (h : b'.scheme = b.scheme) :
              b'.join s = parseAuthority b.scheme (rest.dropWhile isSlash) := by
            rw [join_of_own_scheme (h ▸ hsplit) (h ▸ hspecial), hfile b' h, hbase,
              if_neg Bool.false_ne_true, if_neg hslashes, h]
          exact (hjoin b' hscheme).trans (hjoin b rfl).symm

theorem comes_join_of_opaque {text : List Char} (hpath : b.path = .opaqueText text)
    (hspecial : isSpecial b.scheme = false) (h : b.join s = .ok v) :
    Comes b (·.join s) (.ofText b.scheme (significant s)) ∧
      ∀ rooted text, Reference.ofText b.scheme (significant s) ≠ .path rooted text := by
  unfold Reference.ofText
  cases hown : Reference.ownPart b.scheme (significant s) with
  | none => exact ⟨comes_absolute hown, nofun⟩
  | some rest =>
    obtain ⟨hsplit, rfl⟩ | ⟨-, hspecial'⟩ := ownPart_eq_some hown
    · simp only [join, parseAgainst, hsplit, hpath] at h
      split at h
      next _ _ rest hfragment =>
        rw [hfragment]
        refine ⟨.here (v := b.withFragment rest) ?_ ⟨rfl, rfl, rfl⟩ rfl, nofun⟩
        simp only [join, parseAgainst, hfragment]
        rfl
      next => cases h
      next _ _ list heq _ => cases heq
    · rw [hspecial] at hspecial'
      cases hspecial'

/-- Whether a reference stays below a base: it has no path, or its path enters again what it left of the base's
directory, and more. -/
def Reference.Stays (b : Url) : Reference → Prop
  | .absolute => False
  | .here => True
  | .path rooted text =>
    let c := course (isSpecial b.scheme) (isFile b.scheme) text
    let start := b.start rooted
    ∃ more, more ≠ [] ∧ c.behind (isFile b.scheme) start = b.directory.drop (c.kept start).length ++ more

variable {ds : List (List Char)}

theorem directory_of_path (hpath : b.path = .segments (ds ++ [[]])) : b.directory = ds := by
  unfold directory
  rw [hpath]
  simp [directory.dropSegmentOf, dropSegment, isDrive]

theorem start_isPrefix (hpath : b.path = .segments (ds ++ [[]])) (rooted : Bool) : b.start rooted <+: ds := by
  cases rooted with
  | false =>
    have hstart : b.start false = ds := by rw [start, if_neg Bool.false_ne_true, directory_of_path hpath]
    exact hstart ▸ List.prefix_rfl
  | true =>
    rw [start, if_pos rfl, root, hpath]
    cases ds with
    | nil => simp [isDrive]
    | cons s more =>
      rw [List.cons_append]
      dsimp only
      split
      · exact List.cons_prefix_cons.2 ⟨rfl, List.nil_prefix⟩
      · exact List.nil_prefix

theorem start_head (hb : Hierarchical b (ds ++ [[]])) (hfile : isFile b.scheme = true) (rooted : Bool) :
    [] ∉ (b.start rooted).head? := by
  intro hhead
  obtain ⟨more, hmore⟩ := start_isPrefix hb.path rooted
  cases hstart : b.start rooted with
  | nil => simp [hstart] at hhead
  | cons s rest =>
    obtain rfl : s = [] := by simpa [hstart] using hhead
    obtain ⟨t, rest', hrest⟩ := List.exists_cons_of_ne_nil (List.concat_ne_nil [] (rest ++ more))
    refine (hb.onDisk hfile).front t rest' ?_
    rw [← hmore, hstart, ← hrest, List.cons_append, List.cons_append]

/-- The path that a reference comes to begins with the base's own exactly if the reference stays. -/
theorem isPrefix_iff_stays (hb : Hierarchical b (ds ++ [[]])) (rooted : Bool) (text : List Char) :
    b.path.text <+: (Path.segments
        (resolve (isSpecial b.scheme) (isFile b.scheme) (b.start rooted) text)).text ↔
      (Reference.path rooted text).Stays b := by
  have hds : Slashless ds := hb.slashless.sublist (List.sublist_append_left ds [[]])
  have hstart := start_isPrefix hb.path rooted
  have hslash : Slashless (resolve (isSpecial b.scheme) (isFile b.scheme) (b.start rooted) text) :=
    slashless_resolve (hds.sublist hstart.sublist) text
  rw [hb.path, directory_isPrefix_iff hds hslash,
    resolve_eq (isSpecial b.scheme) fun hfile => start_head hb hfile rooted, Reference.Stays,
    directory_of_path hb.path]
  obtain ⟨left, hleft⟩ : (course (isSpecial b.scheme) (isFile b.scheme) text).kept (b.start rooted) <+: ds :=
    (Course.kept_isPrefix _ _).trans hstart
  rw [← hleft]
  simp only [List.append_assoc, List.append_cancel_left_eq, List.drop_left]

theorem stays_of_no_parent {text : List Char}
    (h : ∀ s ∈ splitPath (isSpecial b.scheme) text, ∀ n, dotCount? (encode isPathEscaped s) = some n → n = 1) :
    (Reference.path false text).Stays b := by
  have hkept : (course (isSpecial b.scheme) (isFile b.scheme) text).kept (b.start false) = b.directory := by
    rw [Course.kept, left_course h, Function.iterate_zero_apply, List.reverse_reverse, start,
      if_neg Bool.false_ne_true]
  refine ⟨_, behind_course_ne_nil (isSpecial b.scheme) (isFile b.scheme) (b.start false) text, ?_⟩
  rw [hkept, List.drop_length, List.nil_append]

end EngineMigrate.Url
