import EngineMigrate.Proofs.UrlReference

/-!
The form of a URL that was read, and of the directory that is made of it.  Main statements: it has a path of
segments, as files and the other well-known schemes always do, or an opaque one; and so does its directory, with
an empty segment behind the others.
-/
namespace EngineMigrate.Url

variable {u : Url} {s : String} {scheme cs rest : List Char} {list done : List (List Char)}

/-- A path of segments, or an opaque one, which no well-known scheme has. -/
inductive Formed (u : Url) : Prop where
  | hierarchical {list : List (List Char)} (h : Hierarchical u list) : Formed u
  | plain {text : List Char} (path : u.path = .opaqueText text) (special : isSpecial u.scheme = false) : Formed u

theorem isSpecial_of_isFile (h : isFile scheme = true) : isSpecial scheme = true := by
  rw [isSpecial, h, Bool.true_or]

theorem root_of_no_drive (hpath : u.path = .segments list) (h : list.any isDrive = false) : u.root = [] := by
  cases list with
  | nil => simp only [root, hpath]
  | cons s more =>
    have hs : isDrive s = false := by simp_all
    simp only [root, hpath, hs, Bool.and_false, Bool.false_eq_true, if_false]

theorem hierarchical_withPath (hdone : Slashless done) (cs : List Char)
    (hdisk : isFile u.scheme = true →
      u.port = none ∧ ∃ host, u.host = some host ∧ ((u.withPath done cs).root ≠ [] → host = [])) :
    Hierarchical (u.withPath done cs)
      (resolve (isSpecial u.scheme) (isFile u.scheme) done (cs.takeWhile (!endsPath ·))) where
  path := rfl
  slashless := slashless_resolve hdone _
  onDisk hfile := by
    have hfile' : isFile u.scheme = true := hfile
    obtain ⟨hport, hhost⟩ := hdisk hfile'
    refine ⟨hport, hhost, ?_⟩
    rw [resolve, hfile', if_pos rfl]
    exact dropEmptySegments_front _

theorem formed_fileBlank (cs : List Char) : Formed ((fileBlank []).withPath [] cs) :=
  .hierarchical (hierarchical_withPath (List.forall_mem_nil _) cs fun _ => ⟨rfl, [], rfl, fun _ => rfl⟩)

theorem withPathStart_cases (u : Url) (cs : List Char) :
    (∃ cs', u.withPathStart cs = u.withPath [] cs') ∨ isSpecial u.scheme = false ∧ ∃ query fragment,
      u.withPathStart cs = { u with path := .segments [], query := query, fragment := fragment } := by
  unfold withPathStart
  dsimp only
  split
  next c rest =>
    split
    · exact .inl ⟨rest, rfl⟩
    · split
      · exact .inl ⟨c :: rest, rfl⟩
      next h => exact .inr ⟨by simp only [Bool.not_eq_true, Bool.or_eq_false_iff] at h; exact h.1, _, _, rfl⟩
  next =>
    split
    · exact .inl ⟨[], rfl⟩
    next h => exact .inr ⟨by simpa using h, _, _, rfl⟩

theorem formed_withPathStart (hfile : isFile u.scheme = false) (cs : List Char) : Formed (u.withPathStart cs) := by
  obtain ⟨cs', h⟩ | ⟨-, query, fragment, h⟩ := withPathStart_cases u cs
  · rw [h]
    exact .hierarchical (hierarchical_withPath (List.forall_mem_nil _) cs' fun hf => by simp [hfile] at hf)
  · rw [h]
    exact .hierarchical ⟨rfl, List.forall_mem_nil _, fun hf => absurd hf (by simp [hfile])⟩

theorem parseAuthority_ok (h : parseAuthority scheme cs = .ok u) :
    ∃ (u₀ : Url) (rest : List Char), u₀.scheme = scheme ∧ u = u₀.withPathStart rest := by
  simp only [parseAuthority, bind, Except.bind, throw, throwThe, MonadExceptOf.throw, pure, Except.pure] at h
  repeat' split at h
  -- what is left is a fault, or the same URL behind either kind of host
  all_goals first
    | exact ⟨_, _, rfl, (Except.ok.inj h).symm⟩
    | cases h

theorem formed_parseAuthority (hfile : isFile scheme = false) (h : parseAuthority scheme cs = .ok u) :
    Formed u := by
  obtain ⟨u₀, rest, hscheme, rfl⟩ := parseAuthority_ok h
  exact formed_withPathStart (hscheme ▸ hfile) rest

theorem formed_parseFileHost (h : parseFileHost cs = .ok u) : Formed u := by
  simp only [parseFileHost, bind, Except.bind, pure, Except.pure] at h
  split at h
  · exact Except.ok.inj h ▸ formed_fileBlank _
  split at h
  · exact Except.ok.inj h ▸ formed_fileBlank _
  split at h
  · cases h
  next host _ =>
  split at h
  · exact Except.ok.inj h ▸ formed_fileBlank _
  obtain ⟨cs', hread⟩ | ⟨hspecial, -⟩ := withPathStart_cases (fileBlank host)
    (cs.dropWhile fun c => !isSlash c && !endsPath c)
  · rw [hread] at h
    split at h
    next list hpath =>
      split at h
      · exact Except.ok.inj h ▸ formed_fileBlank cs'
      next hdrive =>
        have hroot : ((fileBlank host).withPath [] cs').root = [] :=
          root_of_no_drive hpath (Bool.not_eq_true _ ▸ hdrive)
        exact Except.ok.inj h ▸ .hierarchical
          (hierarchical_withPath (List.forall_mem_nil _) cs' fun _ => ⟨rfl, host, rfl, fun hne => absurd hroot hne⟩)
    next text hpath => cases hpath
  · have hfile : isSpecial "file".toList = true := by decide
    exact absurd (hfile.symm.trans hspecial) (by decide)

theorem formed_parseFile (h : parseFile none cs = .ok u) : Formed u := by
  unfold parseFile at h
  split at h
  next c rest =>
    split at h
    · split at h
      · split at h
        · exact formed_parseFileHost h
        · exact Except.ok.inj h ▸ formed_fileBlank _
      · exact Except.ok.inj h ▸ formed_fileBlank _
    · exact Except.ok.inj h ▸ formed_fileBlank _
  next => exact Except.ok.inj h ▸ formed_fileBlank _

theorem formed_parseOther (hspecial : isSpecial scheme = false) (h : parseOther scheme cs = .ok u) : Formed u := by
  have hfile : isFile scheme = false := by
    rw [Bool.eq_false_iff]
    exact fun hfile => by simp [isSpecial_of_isFile hfile] at hspecial
  unfold parseOther at h
  split at h
  next => exact formed_parseAuthority hfile h
  next rest _ =>
    have hdisk : isFile (blank scheme).scheme = false := hfile
    exact Except.ok.inj h ▸ .hierarchical
      (hierarchical_withPath (List.forall_mem_nil _) rest fun hf => by simp [hdisk] at hf)
  next => exact Except.ok.inj h ▸ .plain rfl hspecial

/-- Every URL that is read without a base is well formed. -/
theorem formed_parse (h : parse s = .ok u) : Formed u := by
  simp only [parse, parseAgainst] at h
  split at h
  next scheme rest _ =>
    unfold parseWithScheme at h
    split at h
    next => exact formed_parseFile h
    next hfile =>
      split at h
      · exact formed_parseAuthority (Bool.not_eq_true _ ▸ hfile) h
      next hspecial => exact formed_parseOther (Bool.not_eq_true _ ▸ hspecial) h
  next => cases h

theorem hierarchical_asDirectory (h : Hierarchical u list) : ∃ ds, Hierarchical u.asDirectory (ds ++ [[]]) := by
  unfold asDirectory
  rw [h.path]
  dsimp only
  split
  next hlast =>
    obtain ⟨ds, rfl⟩ := List.getLast?_eq_some_iff.1 hlast
    exact ⟨ds, h⟩
  next hlast =>
    have hslash : Slashless (list ++ [[]]) := by
      intro s hs
      rcases List.mem_append.1 hs with hs | hs
      · exact h.slashless s hs
      · rw [List.mem_singleton.1 hs]
        exact List.not_mem_nil
    refine ⟨list, rfl, hslash, fun hfile => ?_⟩
    obtain ⟨hport, ⟨host, hhost, hroot⟩, hfront⟩ := h.onDisk hfile
    have hroot' : root { u with path := .segments (list ++ [[]]) } = u.root := by
      cases list with
      | nil => simp [root, h.path, isDrive]
      | cons s more => simp only [root, h.path, List.cons_append]
    refine ⟨hport, ⟨host, hhost, fun hne => hroot (hroot' ▸ hne)⟩, fun s more heq => ?_⟩
    cases list with
    | nil => simp at heq
    | cons t rest =>
      obtain rfl : t = [] := by simpa using congrArg List.head? heq
      cases rest with
      | nil => exact hlast rfl
      | cons t' rest => exact hfront t' rest rfl

theorem asDirectory_cases (h : Formed u) : (∃ ds, Hierarchical u.asDirectory (ds ++ [[]])) ∨
    isSpecial u.asDirectory.scheme = false ∧ ∃ text, u.asDirectory.path = .opaqueText text := by
  cases h with
  | hierarchical h => exact .inl (hierarchical_asDirectory h)
  | plain path special =>
    obtain ⟨text, htext⟩ : ∃ text, u.asDirectory = { u with path := .opaqueText text } := by
      unfold asDirectory
      rw [path]
      dsimp only
      split
      · exact ⟨_, by rw [← path]⟩
      · split
        · exact ⟨_, rfl⟩
        · exact ⟨_, rfl⟩
    rw [htext]
    exact .inr ⟨special, text, rfl⟩

end EngineMigrate.Url
