import FreedosMicroPython.Lib.Scan
import FreedosMicroPython.Urllib.Quote
/-!
# Splitting a URL

`urlsplit` of `port/urllib_parse_uc386dos.c` computes five pairs of indices in one
pass. `Matches` is the grammar

    [scheme ':'] ['//' netloc] path ['?' query] ['#' fragment]

matched from left to right, in which an optional part is present whenever it can
be. `parts` is the one way to match it, and the pass finds it.
-/

namespace FreedosMicroPython.Urllib.Split

open FreedosMicroPython.Lib.Scan FreedosMicroPython.Urllib.Quote

variable (utf8Check : List UInt8 → Bool)

/-! ## The pass over the text -/

def isLetter (c : UInt8) : Bool :=
  ('A'.toUInt8 ≤ c && c ≤ 'Z'.toUInt8) || ('a'.toUInt8 ≤ c && c ≤ 'z'.toUInt8)

def isSchemeChar (c : UInt8) : Bool :=
  isLetter c || ('0'.toUInt8 ≤ c && c ≤ '9'.toUInt8) ||
    c = '+'.toUInt8 || c = '-'.toUInt8 || c = '.'.toUInt8

def colonFrom : List UInt8 → Nat → Option Nat
  | [], _ => none
  | c :: cs, i =>
      if c = ':'.toUInt8 then some i
      else if isSchemeChar c then colonFrom cs (i + 1)
      else none

/-- `scheme_end`; `none` when `has_scheme` is 0. -/
def schemeEnd : List UInt8 → Option Nat
  | [] => none
  | c :: cs => if isLetter c then colonFrom cs 1 else none

def inNetloc (c : UInt8) : Bool := c ≠ '/'.toUInt8 && c ≠ '?'.toUInt8 && c ≠ '#'.toUInt8

def inPath (c : UInt8) : Bool := c ≠ '?'.toUInt8 && c ≠ '#'.toUInt8

def inQuery (c : UInt8) : Bool := c ≠ '#'.toUInt8

structure SplitResult where
  scheme : List UInt8
  netloc : List UInt8
  path : List UInt8
  query : List UInt8
  fragment : List UInt8
  deriving DecidableEq, Repr

/-- The start and the end of the netloc, and the index after it. -/
def netlocSpan (url : List UInt8) (pos : Nat) : Nat × Nat × Nat :=
  if pos + 1 < url.length ∧ url[pos]? = some '/'.toUInt8 ∧ url[pos + 1]? = some '/'.toUInt8 then
    let pos := pos + 2
    (pos, scan inNetloc url pos, scan inNetloc url pos)
  else (pos, pos, pos)

/-- The start and the end of the query, and the index after it. -/
def querySpan (url : List UInt8) (pos : Nat) : Nat × Nat × Nat :=
  if pos < url.length ∧ url[pos]? = some '?'.toUInt8 then
    let pos := pos + 1
    (pos, scan inQuery url pos, scan inQuery url pos)
  else (pos, pos, pos)

/-- `frag_start`; it stays at the end of the query when there is no fragment. -/
def fragmentStart (url : List UInt8) (queryEnd pos : Nat) : Nat :=
  if pos < url.length ∧ url[pos]? = some '#'.toUInt8 then pos + 1 else queryEnd

def urllibUrlsplit (url : Obj) : Except Raised SplitResult :=
  match url with
  | .str url => do
      let n := url.length
      let has := schemeEnd url
      let pos := match has with
        | some schemeEnd => schemeEnd + 1
        | none => 0
      let (netlocStart, netlocEnd, pos) := netlocSpan url pos
      let pathStart := pos
      let pathEnd := scan inPath url pos
      let (queryStart, queryEnd, pos) := querySpan url pathEnd
      let fragStart := fragmentStart url queryEnd pos
      let scheme ← mpObjNewStr utf8Check (segment url 0 (has.getD 0))
      let netloc ← mpObjNewStr utf8Check (segment url netlocStart netlocEnd)
      let path ← mpObjNewStr utf8Check (segment url pathStart pathEnd)
      let query ← mpObjNewStr utf8Check (segment url queryStart queryEnd)
      let fragment ← mpObjNewStr utf8Check (segment url fragStart n)
      return ⟨scheme, netloc, path, query, fragment⟩
  | _ => .error .typeError

/-! ## The grammar -/

/-- The parts of a URL; an optional part that is absent is `none`. -/
structure Parts where
  scheme : Option (List UInt8)
  netloc : Option (List UInt8)
  path : List UInt8
  query : Option (List UInt8)
  fragment : Option (List UInt8)
  deriving DecidableEq, Repr

def optional (mark : List UInt8) : Option (List UInt8) → List UInt8
  | none => []
  | some part => mark ++ part

namespace Parts

variable (p : Parts)

def fragmentText : List UInt8 := optional ['#'.toUInt8] p.fragment

def queryText : List UInt8 := optional ['?'.toUInt8] p.query ++ p.fragmentText

def pathText : List UInt8 := p.path ++ p.queryText

def netlocText : List UInt8 := optional ['/'.toUInt8, '/'.toUInt8] p.netloc ++ p.pathText

def text : List UInt8 :=
  match p.scheme with
  | none => p.netlocText
  | some scheme => scheme ++ ':'.toUInt8 :: p.netlocText

def result : SplitResult :=
  ⟨p.scheme.getD [], p.netloc.getD [], p.path, p.query.getD [], p.fragment.getD []⟩

end Parts

def IsScheme (s : List UInt8) : Prop :=
  ∃ c cs, s = c :: cs ∧ isLetter c = true ∧ ∀ x ∈ cs, isSchemeChar x = true

structure Matches (p : Parts) (url : List UInt8) : Prop where
  text : p.text = url
  scheme : ∀ s ∈ p.scheme, IsScheme s
  /-- The scheme is absent only where none can be read. -/
  no_scheme : p.scheme = none → ∀ s rest, IsScheme s → url ≠ s ++ ':'.toUInt8 :: rest
  netloc : ∀ a ∈ p.netloc, ∀ c ∈ a, inNetloc c = true
  /-- The netloc is absent only where no `//` stands. -/
  no_netloc : p.netloc = none → ¬['/'.toUInt8, '/'.toUInt8] <+: p.path
  /-- The netloc is as long as it can be. -/
  netloc_longest : p.netloc ≠ none → ∀ c ∈ p.path.head?, c = '/'.toUInt8
  path : ∀ c ∈ p.path, inPath c = true
  query : ∀ q ∈ p.query, ∀ c ∈ q, inQuery c = true

/-! ## Matching from left to right -/

/-- The part behind `mark`, as far as `q` holds, and the text after it. -/
def cutAt (mark : UInt8) (q : UInt8 → Bool) : List UInt8 → Option (List UInt8) × List UInt8
  | [] => (none, [])
  | c :: cs => if c = mark then (some (cs.takeWhile q), cs.dropWhile q) else (none, c :: cs)

def cutNetloc : List UInt8 → Option (List UInt8) × List UInt8
  | c :: d :: cs =>
      if c = '/'.toUInt8 ∧ d = '/'.toUInt8 then
        (some (cs.takeWhile inNetloc), cs.dropWhile inNetloc)
      else (none, c :: d :: cs)
  | cs => (none, cs)

def cutScheme (url : List UInt8) : Option (List UInt8) × List UInt8 :=
  match schemeEnd url with
  | none => (none, url)
  | some e => (some (url.take e), url.drop (e + 1))

def parts (url : List UInt8) : Parts :=
  let (scheme, rest) := cutScheme url
  let (netloc, rest) := cutNetloc rest
  let path := rest.takeWhile inPath
  let (query, rest) := cutAt '?'.toUInt8 inQuery (rest.dropWhile inPath)
  let (fragment, _) := cutAt '#'.toUInt8 (fun _ => true) rest
  ⟨scheme, netloc, path, query, fragment⟩

theorem cutAt_optional {mark : UInt8} {q : UInt8 → Bool} {part : Option (List UInt8)}
    {rest : List UInt8} (hpart : ∀ a ∈ part, ∀ c ∈ a, q c = true)
    (hrest : ∀ c ∈ rest.head?, q c = false ∧ c ≠ mark) :
    cutAt mark q (optional [mark] part ++ rest) = (part, rest) := by
  cases part with
  | none =>
      cases rest with
      | nil => rfl
      | cons c cs => simp [optional, cutAt, (hrest c rfl).2]
  | some a =>
      have hstop : ∀ c ∈ rest.head?, q c = false := fun c hc => (hrest c hc).1
      have htake := takeWhile_append_of_stop q (hpart a rfl) hstop
      have hdrop := dropWhile_append_of_stop q (hpart a rfl) hstop
      simp [optional, cutAt, htake, hdrop]

theorem cutNetloc_optional {netloc : Option (List UInt8)} {rest : List UInt8}
    (hnetloc : ∀ a ∈ netloc, ∀ c ∈ a, inNetloc c = true)
    (hnone : netloc = none → ¬['/'.toUInt8, '/'.toUInt8] <+: rest)
    (hrest : netloc ≠ none → ∀ c ∈ rest.head?, inNetloc c = false) :
    cutNetloc (optional ['/'.toUInt8, '/'.toUInt8] netloc ++ rest) = (netloc, rest) := by
  cases netloc with
  | none =>
      have hstarts := hnone rfl
      match rest with
      | [] => rfl
      | [c] => rfl
      | c :: d :: cs =>
          have hne : ¬(c = '/'.toUInt8 ∧ d = '/'.toUInt8) := by
            rintro ⟨rfl, rfl⟩
            exact hstarts (List.prefix_append _ cs)
          simp [optional, cutNetloc, hne]
  | some a =>
      have htake := takeWhile_append_of_stop inNetloc (hnetloc a rfl) (hrest (by simp))
      have hdrop := dropWhile_append_of_stop inNetloc (hnetloc a rfl) (hrest (by simp))
      simp [optional, cutNetloc, htake, hdrop]

theorem colonFrom_eq_some {cs : List UInt8} {i e : Nat} (h : colonFrom cs i = some e) :
    ∃ xs rest, cs = xs ++ ':'.toUInt8 :: rest ∧ e = i + xs.length ∧
      ∀ x ∈ xs, isSchemeChar x = true := by
  induction cs generalizing i with
  | nil => cases h
  | cons c cs ih =>
      rw [colonFrom] at h
      split at h
      · rename_i hc
        cases h
        exact ⟨[], cs, by rw [hc]; rfl, rfl, by simp⟩
      · split at h
        · rename_i hc
          obtain ⟨xs, rest, rfl, rfl, hxs⟩ := ih h
          refine ⟨c :: xs, rest, rfl, ?_, ?_⟩
          · rw [List.length_cons]
            omega
          · intro x hx
            obtain rfl | hx := List.mem_cons.mp hx
            · exact hc
            · exact hxs x hx
        · cases h

theorem colonFrom_append {xs rest : List UInt8} (hxs : ∀ x ∈ xs, isSchemeChar x = true) (i : Nat) :
    colonFrom (xs ++ ':'.toUInt8 :: rest) i = some (i + xs.length) := by
  induction xs generalizing i with
  | nil => simp [colonFrom]
  | cons x xs ih =>
      have hx := hxs x (by simp)
      have hcolon : x ≠ ':'.toUInt8 := by
        rintro rfl
        revert hx
        decide
      rw [List.cons_append, colonFrom, if_neg hcolon, if_pos hx,
        ih fun y hy => hxs y (by simp [hy]), List.length_cons]
      congr 1
      omega

theorem schemeEnd_of_isScheme {s rest : List UInt8} (h : IsScheme s) :
    schemeEnd (s ++ ':'.toUInt8 :: rest) = some s.length := by
  obtain ⟨c, cs, rfl, hc, hcs⟩ := h
  rw [List.cons_append, schemeEnd, if_pos hc, colonFrom_append hcs, List.length_cons]
  congr 1
  omega

theorem isScheme_of_schemeEnd {url : List UInt8} {e : Nat} (h : schemeEnd url = some e) :
    ∃ s rest, url = s ++ ':'.toUInt8 :: rest ∧ e = s.length ∧ IsScheme s := by
  cases url with
  | nil => cases h
  | cons c cs =>
      rw [schemeEnd] at h
      split at h
      · rename_i hc
        obtain ⟨xs, rest, rfl, rfl, hxs⟩ := colonFrom_eq_some h
        refine ⟨c :: xs, rest, rfl, ?_, c, xs, rfl, hc, hxs⟩
        rw [List.length_cons]
        omega
      · cases h

theorem schemeEnd_eq_none {url : List UInt8}
    (h : ∀ s rest, IsScheme s → url ≠ s ++ ':'.toUInt8 :: rest) : schemeEnd url = none := by
  cases hend : schemeEnd url with
  | none => rfl
  | some e =>
      obtain ⟨s, rest, hurl, -, hs⟩ := isScheme_of_schemeEnd hend
      exact absurd hurl (h s rest hs)

/-! ## There is one match -/

section
variable {p : Parts}

theorem head_optional {mark : UInt8} {part : Option (List UInt8)} {rest : List UInt8}
    {P : UInt8 → Prop} (hmark : P mark) (hrest : ∀ c ∈ rest.head?, P c) :
    ∀ c ∈ (optional [mark] part ++ rest).head?, P c := by
  cases part with
  | none => exact hrest
  | some a =>
      intro c hc
      cases hc
      exact hmark

theorem head_fragmentText : ∀ c ∈ p.fragmentText.head?, c = '#'.toUInt8 := by
  have h : ∀ c ∈ (optional ['#'.toUInt8] p.fragment ++ []).head?, c = '#'.toUInt8 :=
    head_optional (P := fun c => c = '#'.toUInt8) rfl (by simp)
  rwa [List.append_nil] at h

theorem head_queryText : ∀ c ∈ p.queryText.head?, c = '?'.toUInt8 ∨ c = '#'.toUInt8 :=
  head_optional (.inl rfl) fun c hc => .inr (head_fragmentText c hc)

theorem not_inPath_queryText : ∀ c ∈ p.queryText.head?, inPath c = false := by
  intro c hc
  obtain rfl | rfl := head_queryText c hc <;> decide

theorem slashes_pathText (h : ['/'.toUInt8, '/'.toUInt8] <+: p.pathText) :
    ['/'.toUInt8, '/'.toUInt8] <+: p.path := by
  have hslash : ∀ rest, p.queryText ≠ '/'.toUInt8 :: rest := by
    intro rest hq
    have hstop := not_inPath_queryText (p := p) '/'.toUInt8 (by rw [hq]; rfl)
    revert hstop
    decide
  obtain ⟨rest, hrest⟩ := h
  rw [Parts.pathText] at hrest
  match hpath : p.path with
  | [] =>
      rw [hpath] at hrest
      exact absurd hrest.symm (hslash _)
  | [c] =>
      rw [hpath] at hrest
      exact absurd (List.cons.inj hrest).2.symm (hslash _)
  | c :: d :: cs =>
      rw [hpath] at hrest
      simp only [List.cons_append, List.cons.injEq] at hrest
      obtain ⟨rfl, rfl, -⟩ := hrest
      exact List.prefix_append _ cs

theorem cutScheme_of_matches {url : List UInt8} (h : Matches p url) :
    cutScheme url = (p.scheme, p.netlocText) := by
  have htext := h.text
  unfold Parts.text at htext
  unfold cutScheme
  cases hs : p.scheme with
  | none =>
      rw [hs] at htext
      rw [schemeEnd_eq_none (h.no_scheme hs)]
      exact congrArg (none, ·) htext.symm
  | some s =>
      rw [hs] at htext
      rw [← htext, schemeEnd_of_isScheme (h.scheme s hs)]
      simp [← List.drop_drop]

theorem not_inNetloc_pathText {url : List UInt8} (h : Matches p url) (hsome : p.netloc ≠ none) :
    ∀ c ∈ p.pathText.head?, inNetloc c = false := by
  intro c hc
  rw [Parts.pathText] at hc
  cases hpath : p.path with
  | nil =>
      rw [hpath] at hc
      obtain rfl | rfl := head_queryText c hc <;> decide
  | cons d ds =>
      have hd := h.netloc_longest hsome d (by rw [hpath]; rfl)
      rw [hpath] at hc
      cases hc
      rw [hd]
      decide

theorem cutNetloc_of_matches {url : List UInt8} (h : Matches p url) :
    cutNetloc p.netlocText = (p.netloc, p.pathText) := by
  apply cutNetloc_optional h.netloc
  · exact fun hnone hstarts => h.no_netloc hnone (slashes_pathText hstarts)
  · exact not_inNetloc_pathText h

theorem cutQuery_of_matches {url : List UInt8} (h : Matches p url) :
    cutAt '?'.toUInt8 inQuery p.queryText = (p.query, p.fragmentText) := by
  apply cutAt_optional h.query
  intro c hc
  rw [head_fragmentText c hc]
  decide

theorem cutFragment_fragmentText :
    cutAt '#'.toUInt8 (fun _ => true) p.fragmentText = (p.fragment, []) := by
  have h : cutAt '#'.toUInt8 (fun _ => true) (optional ['#'.toUInt8] p.fragment ++ []) =
      (p.fragment, []) := cutAt_optional (by simp) (by simp)
  rwa [List.append_nil] at h

/-- Whatever matches is the match from left to right. -/
theorem eq_parts {url : List UInt8} (h : Matches p url) : p = parts url := by
  have htake : p.pathText.takeWhile inPath = p.path :=
    takeWhile_append_of_stop inPath h.path not_inPath_queryText
  have hdrop : p.pathText.dropWhile inPath = p.queryText :=
    dropWhile_append_of_stop inPath h.path not_inPath_queryText
  simp only [parts, cutScheme_of_matches h, cutNetloc_of_matches h, htake, hdrop,
    cutQuery_of_matches h, cutFragment_fragmentText]

end

theorem cutAt_spec (mark : UInt8) (q : UInt8 → Bool) (cs : List UInt8) :
    optional [mark] (cutAt mark q cs).1 ++ (cutAt mark q cs).2 = cs ∧
      (∀ a ∈ (cutAt mark q cs).1, ∀ c ∈ a, q c = true) ∧
      (∀ c ∈ (cutAt mark q cs).2.head?, c ∈ cs.head? ∧ c ≠ mark ∨ q c = false) := by
  cases cs with
  | nil => simp [cutAt, optional]
  | cons c cs =>
      by_cases hc : c = mark
      · simp only [cutAt, if_pos hc, optional, List.cons_append, List.nil_append]
        refine ⟨?_, ?_, fun d hd => .inr (head_dropWhile q cs d hd)⟩
        · rw [hc, List.takeWhile_append_dropWhile]
        · rintro a ⟨⟩ d hd
          exact List.mem_takeWhile_imp hd
      · simp [cutAt, hc, optional]

theorem cutNetloc_spec (cs : List UInt8) :
    optional ['/'.toUInt8, '/'.toUInt8] (cutNetloc cs).1 ++ (cutNetloc cs).2 = cs ∧
      (∀ a ∈ (cutNetloc cs).1, ∀ c ∈ a, inNetloc c = true) ∧
      ((cutNetloc cs).1 = none → ¬['/'.toUInt8, '/'.toUInt8] <+: (cutNetloc cs).2) ∧
      ((cutNetloc cs).1 ≠ none → ∀ c ∈ (cutNetloc cs).2.head?, inNetloc c = false) := by
  match cs with
  | [] => simp [cutNetloc, optional]
  | [c] => simp [cutNetloc, optional]
  | c :: d :: cs =>
      by_cases hslash : c = '/'.toUInt8 ∧ d = '/'.toUInt8
      · obtain ⟨rfl, rfl⟩ := hslash
        simp only [cutNetloc, and_self, if_true, optional, List.cons_append, List.nil_append,
          List.takeWhile_append_dropWhile, true_and]
        refine ⟨?_, by simp, fun _ => head_dropWhile inNetloc cs⟩
        rintro a ⟨⟩ e he
        exact List.mem_takeWhile_imp he
      · simp only [cutNetloc, if_neg hslash, optional, List.nil_append]
        refine ⟨trivial, by simp, fun _ hstarts => hslash ?_, by simp⟩
        have h := List.cons_prefix_cons.mp hstarts
        exact ⟨h.1.symm, (List.cons_prefix_cons.mp h.2).1.symm⟩

theorem cutScheme_spec (url : List UInt8) :
    (match (cutScheme url).1 with
      | none => (cutScheme url).2
      | some s => s ++ ':'.toUInt8 :: (cutScheme url).2) = url ∧
      (∀ s ∈ (cutScheme url).1, IsScheme s) ∧
      ((cutScheme url).1 = none → ∀ s rest, IsScheme s → url ≠ s ++ ':'.toUInt8 :: rest) := by
  cases hend : schemeEnd url with
  | none =>
      simp only [cutScheme, hend]
      refine ⟨trivial, by simp, fun _ s rest hs hurl => ?_⟩
      rw [hurl, schemeEnd_of_isScheme hs] at hend
      cases hend
  | some e =>
      obtain ⟨s, rest, rfl, rfl, hs⟩ := isScheme_of_schemeEnd hend
      simp only [cutScheme, hend, List.take_left, ← List.drop_drop, List.drop_left]
      exact ⟨rfl, fun t ht => by cases ht; exact hs, by simp⟩

/-- The match from left to right is a match. -/
theorem matches_parts (url : List UInt8) : Matches (parts url) url := by
  obtain ⟨hschemeText, hscheme, hnoScheme⟩ := cutScheme_spec url
  obtain ⟨hnetlocText, hnetloc, hnoNetloc, hlongest⟩ := cutNetloc_spec (cutScheme url).2
  set rest := (cutNetloc (cutScheme url).2).2 with hrest
  obtain ⟨hqueryText, hquery, hafter⟩ := cutAt_spec '?'.toUInt8 inQuery (rest.dropWhile inPath)
  set tail := (cutAt '?'.toUInt8 inQuery (rest.dropWhile inPath)).2 with htail
  have hhead : ∀ c ∈ tail.head?, c = '#'.toUInt8 := by
    intro c hc
    obtain ⟨hc, hmark⟩ | hc := hafter c hc
    · have hstop := head_dropWhile inPath rest c hc
      simpa [inPath, hmark] using hstop
    · simpa [inQuery] using hc
  have hfragment : (parts url).fragmentText = tail := by
    change optional ['#'.toUInt8] (cutAt '#'.toUInt8 (fun _ => true) tail).1 = tail
    cases htail' : tail with
    | nil => rfl
    | cons c cs =>
        have hc := hhead c (by rw [htail']; rfl)
        simp [hc, cutAt, optional]
  have hpathText : (parts url).pathText = rest := by
    change rest.takeWhile inPath ++ (optional ['?'.toUInt8]
      (cutAt '?'.toUInt8 inQuery (rest.dropWhile inPath)).1 ++ (parts url).fragmentText) = rest
    rw [hfragment, hqueryText, List.takeWhile_append_dropWhile]
  have hnetlocText' : (parts url).netlocText = (cutScheme url).2 := by
    change optional _ (cutNetloc (cutScheme url).2).1 ++ (parts url).pathText = _
    rw [hpathText, hnetlocText]
  refine ⟨?_, hscheme, hnoScheme, hnetloc, ?_, ?_, ?_, hquery⟩
  · rw [Parts.text, hnetlocText']
    exact hschemeText
  · intro hnone hstarts
    exact hnoNetloc hnone (hstarts.trans (List.takeWhile_prefix inPath))
  · intro hsome c hc
    have hfilter : c ∈ rest.head?.filter inPath := by
      rwa [← List.head?_takeWhile]
    obtain ⟨hc, hpath⟩ := Option.mem_filter_iff.mp hfilter
    have hstop := hlongest hsome c hc
    simp only [inNetloc, inPath, Bool.and_eq_true, decide_eq_true_eq] at hstop hpath
    simpa [hpath] using hstop
  · intro c hc
    exact List.mem_takeWhile_imp hc

/-! ## The indices of the pass -/

theorem cutScheme_indices (url : List UInt8) :
    segment url 0 ((schemeEnd url).getD 0) = (cutScheme url).1.getD [] ∧
      url.drop (match schemeEnd url with | some e => e + 1 | none => 0) = (cutScheme url).2 := by
  cases hend : schemeEnd url with
  | none => simp [cutScheme, hend, Lib.Scan.segment]
  | some e => simp [cutScheme, hend, Lib.Scan.segment]

theorem getElem?_of_drop {url rest : List UInt8} {pos : Nat} (h : url.drop pos = rest) (i : Nat) :
    url[pos + i]? = rest[i]? := by
  rw [← h, List.getElem?_drop]

theorem netlocSpan_indices (url : List UInt8) (pos : Nat) :
    segment url (netlocSpan url pos).1 (netlocSpan url pos).2.1 =
        (cutNetloc (url.drop pos)).1.getD [] ∧
      url.drop (netlocSpan url pos).2.2 = (cutNetloc (url.drop pos)).2 := by
  generalize hrest : url.drop pos = rest
  have hfirst := getElem?_of_drop hrest 0
  have hsecond := getElem?_of_drop hrest 1
  rw [Nat.add_zero] at hfirst
  have hlen := congrArg List.length hrest
  rw [List.length_drop] at hlen
  by_cases hslash : ∃ cs, rest = '/'.toUInt8 :: '/'.toUInt8 :: cs
  · obtain ⟨cs, rfl⟩ := hslash
    simp only [List.length_cons] at hlen
    have hspan : netlocSpan url pos = (pos + 2, scan inNetloc url (pos + 2),
        scan inNetloc url (pos + 2)) := if_pos ⟨by omega, hfirst, hsecond⟩
    have hcs : url.drop (pos + 2) = cs := by
      rw [← List.drop_drop, hrest]
      rfl
    rw [hspan, segment_scan, drop_scan, hcs]
    simp [cutNetloc]
  · have hspan : netlocSpan url pos = (pos, pos, pos) := by
      apply if_neg
      rintro ⟨-, h₀, h₁⟩
      rw [hfirst] at h₀
      rw [hsecond] at h₁
      match rest with
      | [] => cases h₀
      | [c] => cases h₁
      | c :: d :: cs =>
          cases h₀
          cases h₁
          exact hslash ⟨cs, rfl⟩
    have hcut : cutNetloc rest = (none, rest) := by
      match rest with
      | [] => rfl
      | [c] => rfl
      | c :: d :: cs =>
          apply if_neg
          rintro ⟨rfl, rfl⟩
          exact hslash ⟨cs, rfl⟩
    rw [hspan, hcut, segment_self]
    exact ⟨rfl, hrest⟩

theorem querySpan_indices (url : List UInt8) (pos : Nat) :
    segment url (querySpan url pos).1 (querySpan url pos).2.1 =
        (cutAt '?'.toUInt8 inQuery (url.drop pos)).1.getD [] ∧
      url.drop (querySpan url pos).2.2 = (cutAt '?'.toUInt8 inQuery (url.drop pos)).2 ∧
      (querySpan url pos).2.1 = (querySpan url pos).2.2 := by
  generalize hrest : url.drop pos = rest
  have hfirst := getElem?_of_drop hrest 0
  rw [Nat.add_zero] at hfirst
  have hlen := congrArg List.length hrest
  rw [List.length_drop] at hlen
  by_cases hmark : ∃ cs, rest = '?'.toUInt8 :: cs
  · obtain ⟨cs, rfl⟩ := hmark
    simp only [List.length_cons] at hlen
    have hspan : querySpan url pos = (pos + 1, scan inQuery url (pos + 1),
        scan inQuery url (pos + 1)) := if_pos ⟨by omega, hfirst⟩
    have hcs : url.drop (pos + 1) = cs := by
      rw [← List.drop_drop, hrest]
      rfl
    rw [hspan, segment_scan, drop_scan, hcs]
    simp [cutAt]
  · have hspan : querySpan url pos = (pos, pos, pos) := by
      apply if_neg
      rintro ⟨-, h₀⟩
      rw [hfirst] at h₀
      cases rest with
      | nil => cases h₀
      | cons c cs =>
          cases h₀
          exact hmark ⟨cs, rfl⟩
    have hcut : cutAt '?'.toUInt8 inQuery rest = (none, rest) := by
      cases rest with
      | nil => rfl
      | cons c cs =>
          apply if_neg
          rintro rfl
          exact hmark ⟨cs, rfl⟩
    rw [hspan, hcut, segment_self]
    exact ⟨rfl, hrest, rfl⟩

theorem fragmentStart_indices {url : List UInt8} {pos : Nat}
    (hhead : ∀ c ∈ (url.drop pos).head?, c = '#'.toUInt8) :
    segment url (fragmentStart url pos pos) url.length =
      (cutAt '#'.toUInt8 (fun _ => true) (url.drop pos)).1.getD [] := by
  generalize hrest : url.drop pos = rest at hhead ⊢
  have hfirst := getElem?_of_drop hrest 0
  rw [Nat.add_zero] at hfirst
  rw [segment_length]
  cases rest with
  | nil =>
      have hstart : fragmentStart url pos pos = pos := by
        apply if_neg
        rw [hfirst]
        rintro ⟨-, h⟩
        cases h
      rw [hstart, hrest]
      rfl
  | cons c cs =>
      obtain rfl := hhead c rfl
      have hlen := congrArg List.length hrest
      simp only [List.length_drop, List.length_cons] at hlen
      have hstart : fragmentStart url pos pos = pos + 1 := if_pos ⟨by omega, hfirst⟩
      have hall : cs.takeWhile (fun _ => true) = cs := List.takeWhile_eq_self_iff.mpr (by simp)
      rw [hstart, ← List.drop_drop, hrest]
      simp [cutAt, hall]

/-! ## The result -/

section
variable {utf8Check} (hutf8 : Utf8Law utf8Check) {p : Parts}

include hutf8

theorem check_optional {mark : UInt8} (hmark : mark < 0x80) {part : Option (List UInt8)}
    {rest : List UInt8} (hrest : ∀ c ∈ rest.head?, c < 0x80)
    (h : utf8Check (optional [mark] part ++ rest) = true) :
    utf8Check (part.getD []) = true ∧ utf8Check rest = true := by
  cases part with
  | none => exact ⟨hutf8.nil, h⟩
  | some a =>
      rw [optional, List.append_assoc, List.singleton_append, ← List.nil_append (mark :: _),
        hutf8.ascii _ _ _ hmark, hutf8.append a hrest, Bool.and_eq_true, Bool.and_eq_true] at h
      exact h.2

omit hutf8 in
theorem eq_of_not_inNetloc {c : UInt8} (h : inNetloc c = false) :
    c = '/'.toUInt8 ∨ c = '?'.toUInt8 ∨ c = '#'.toUInt8 := by
  simp only [inNetloc, Bool.and_eq_false_iff, decide_eq_false_iff_not, not_not] at h
  exact or_assoc.mp h

/-- A part of a `str` that is cut out at ASCII delimiters is a `str`. -/
theorem check_parts {url : List UInt8} (h : Matches p url) (hurl : utf8Check url = true) :
    utf8Check p.result.scheme = true ∧ utf8Check p.result.netloc = true ∧
      utf8Check p.result.path = true ∧ utf8Check p.result.query = true ∧
      utf8Check p.result.fragment = true := by
  have hnetlocText : utf8Check p.result.scheme = true ∧ utf8Check p.netlocText = true := by
    have htext := h.text
    unfold Parts.text at htext
    unfold Parts.result
    cases hs : p.scheme with
    | none =>
        rw [hs] at htext
        change p.netlocText = url at htext
        exact ⟨hutf8.nil, by rwa [htext]⟩
    | some s =>
        rw [hs] at htext
        rw [← htext, hutf8.ascii _ _ _ (by decide), Bool.and_eq_true] at hurl
        exact hurl
  have hfragmentHead : ∀ c ∈ p.fragmentText.head?, c < 0x80 := by
    intro c hc
    rw [head_fragmentText c hc]
    decide
  have hqueryHead : ∀ c ∈ p.queryText.head?, c < 0x80 := by
    intro c hc
    obtain rfl | rfl := head_queryText c hc <;> decide
  have hpathText : utf8Check p.result.netloc = true ∧ utf8Check p.pathText = true := by
    have hcheck := hnetlocText.2
    unfold Parts.netlocText at hcheck
    unfold Parts.result
    cases hn : p.netloc with
    | none =>
        rw [hn] at hcheck
        exact ⟨hutf8.nil, hcheck⟩
    | some a =>
        have hhead : ∀ c ∈ p.pathText.head?, c < 0x80 := by
          intro c hc
          have hstop : inNetloc c = false := not_inNetloc_pathText h (by simp [hn]) c hc
          obtain rfl | rfl | rfl := eq_of_not_inNetloc hstop <;> decide
        have hslashes := hutf8.ascii ['/'.toUInt8] '/'.toUInt8 (a ++ p.pathText) (by decide)
        rw [hn, optional, List.append_assoc] at hcheck
        change utf8Check (['/'.toUInt8] ++ '/'.toUInt8 :: (a ++ p.pathText)) = true at hcheck
        rw [hslashes, hutf8.append a hhead, Bool.and_eq_true, Bool.and_eq_true] at hcheck
        exact hcheck.2
  have hpath : utf8Check p.path = true ∧ utf8Check p.queryText = true := by
    have hcheck := hpathText.2
    rwa [Parts.pathText, hutf8.append _ hqueryHead, Bool.and_eq_true] at hcheck
  have hquery := check_optional hutf8 (by decide) hfragmentHead hpath.2
  have hfragment : utf8Check (p.fragment.getD []) = true := by
    have hcheck := hquery.2
    rw [Parts.fragmentText, ← List.append_nil (optional _ _)] at hcheck
    exact (check_optional hutf8 (by decide) (by simp) hcheck).1
  exact ⟨hnetlocText.1, hpathText.1, hpath.1, hquery.1, hfragment⟩

end

/-- The pass computes the components of whatever matches. -/
theorem urllibUrlsplit_of_matches {p : Parts} {url : List UInt8} (h : Matches p url)
    (hcheck : utf8Check p.result.scheme = true ∧ utf8Check p.result.netloc = true ∧
      utf8Check p.result.path = true ∧ utf8Check p.result.query = true ∧
      utf8Check p.result.fragment = true) :
    urllibUrlsplit utf8Check (.str url) = .ok p.result := by
  obtain ⟨hscheme, hrest₁⟩ := cutScheme_indices url
  rw [cutScheme_of_matches h] at hscheme hrest₁
  set pos₁ := match schemeEnd url with | some e => e + 1 | none => 0 with hpos₁
  obtain ⟨hnetloc, hrest₂⟩ := netlocSpan_indices url pos₁
  rw [hrest₁, cutNetloc_of_matches h] at hnetloc hrest₂
  set pos₂ := (netlocSpan url pos₁).2.2 with hpos₂
  have hpath : segment url pos₂ (scan inPath url pos₂) = p.path := by
    rw [segment_scan, hrest₂]
    exact takeWhile_append_of_stop inPath h.path not_inPath_queryText
  have hrest₃ : url.drop (scan inPath url pos₂) = p.queryText := by
    rw [drop_scan, hrest₂]
    exact dropWhile_append_of_stop inPath h.path not_inPath_queryText
  obtain ⟨hquery, hrest₄, hend⟩ := querySpan_indices url (scan inPath url pos₂)
  rw [hrest₃, cutQuery_of_matches h] at hquery hrest₄
  set pos₄ := (querySpan url (scan inPath url pos₂)).2.2 with hpos₄
  have hmark : ∀ c ∈ (url.drop pos₄).head?, c = '#'.toUInt8 := by
    rw [hrest₄]
    exact head_fragmentText
  have hfragment := fragmentStart_indices hmark
  rw [hrest₄, cutFragment_fragmentText] at hfragment
  obtain ⟨h₁, h₂, h₃, h₄, h₅⟩ := hcheck
  change (mpObjNewStr utf8Check (segment url 0 ((schemeEnd url).getD 0)) >>= fun scheme =>
    mpObjNewStr utf8Check (segment url (netlocSpan url pos₁).1 (netlocSpan url pos₁).2.1) >>=
      fun netloc =>
    mpObjNewStr utf8Check (segment url pos₂ (scan inPath url pos₂)) >>= fun path =>
    mpObjNewStr utf8Check (segment url (querySpan url (scan inPath url pos₂)).1
      (querySpan url (scan inPath url pos₂)).2.1) >>= fun query =>
    mpObjNewStr utf8Check (segment url (fragmentStart url
      (querySpan url (scan inPath url pos₂)).2.1 pos₄) url.length) >>= fun fragment =>
    pure (⟨scheme, netloc, path, query, fragment⟩ : SplitResult)) = _
  rw [hscheme, hnetloc, hpath, hquery, hend, hfragment]
  simp only [Parts.result] at h₁ h₂ h₃ h₄ h₅
  simp only [mpObjNewStr, h₁, h₂, h₃, h₄, h₅, if_true]
  rfl

/-- The components are those of the one match of the grammar, which gives the
text back. -/
theorem urllibUrlsplit_matches (hutf8 : Utf8Law utf8Check) {url : List UInt8}
    (hurl : utf8Check url = true) :
    ∃ p, Matches p url ∧ (∀ q, Matches q url → q = p) ∧
      urllibUrlsplit utf8Check (.str url) = .ok p.result := by
  have hmatch := matches_parts url
  refine ⟨parts url, hmatch, fun q hq => eq_parts hq, ?_⟩
  exact urllibUrlsplit_of_matches utf8Check hmatch (check_parts hutf8 hmatch hurl)

/-- The text `a://b?#`: an empty path, an empty query and an empty fragment. -/
theorem urllibUrlsplit_matches_empty :
    ∃ p, Matches p [0x61, 0x3A, 0x2F, 0x2F, 0x62, 0x3F, 0x23] ∧
      (∀ q, Matches q [0x61, 0x3A, 0x2F, 0x2F, 0x62, 0x3F, 0x23] → q = p) ∧
      urllibUrlsplit asciiOnly (.str [0x61, 0x3A, 0x2F, 0x2F, 0x62, 0x3F, 0x23]) = .ok p.result :=
  urllibUrlsplit_matches asciiOnly asciiOnly_law (by decide)

end FreedosMicroPython.Urllib.Split
