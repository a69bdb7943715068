import FreedosMicroPython.OsPath
import FreedosMicroPython.Urllib.Split
import Mathlib.Data.List.Infix
/-!
# URLs in wget

`_split_url` and `_resolve_redirect` of `examples/wget.py`, on the components that `urlsplit`
finds. `resolve` is the resolution of a reference against a base as RFC 3986 has it, without
the removal of dot segments.
-/

namespace FreedosMicroPython.Wget

open FreedosMicroPython.Lib.Scan FreedosMicroPython.OsPath FreedosMicroPython.Urllib.Quote
open FreedosMicroPython.Urllib.Split

/-! ## Strings -/

def toLower (c : UInt8) : UInt8 := if 'A'.toUInt8 ≤ c ∧ c ≤ 'Z'.toUInt8 then c + 32 else c

def lower (s : List UInt8) : List UInt8 := s.map toLower

/-- What stands before and behind the first `c`, as in `split(c, 1)`. -/
def cutFirst (c : UInt8) (s : List UInt8) : Option (List UInt8 × List UInt8) :=
  match s.dropWhile (· ≠ c) with
  | [] => none
  | _ :: back => some (s.takeWhile (· ≠ c), back)

/-- What stands before and behind the last `c`, as in `rsplit(c, 1)`. -/
def cutLast (c : UInt8) (s : List UInt8) : Option (List UInt8 × List UInt8) :=
  (cutFirst c s.reverse).map fun (back, front) => (front.reverse, back.reverse)

def isSpace (c : UInt8) : Bool := c = 0x20 || (0x09 ≤ c && c ≤ 0x0D)

def strip (s : List UInt8) : List UInt8 := (s.dropWhile isSpace).rdropWhile isSpace

/-- The digits of a number, where an underscore may stand between two of them. -/
def intDigits (value : Nat) (afterDigit : Bool) : List UInt8 → Option Nat
  | [] => if afterDigit then some value else none
  | c :: cs =>
      if '0'.toUInt8 ≤ c ∧ c ≤ '9'.toUInt8 then
        intDigits (10 * value + (c.toNat - 48)) true cs
      else if c = '_'.toUInt8 ∧ afterDigit then intDigits value false cs
      else none

/-- `int`; `none` is a `ValueError`. -/
def pyInt (s : List UInt8) : Option Int :=
  match strip s with
  | [] => none
  | c :: cs =>
      if c = '-'.toUInt8 then (intDigits 0 false cs).map fun n => -(n : Int)
      else if c = '+'.toUInt8 then (intDigits 0 false cs).map fun n => (n : Int)
      else (intDigits 0 false (c :: cs)).map fun n => (n : Int)

/-! ## The functions of the program -/

/-- What `_split_url` returns; it raises a `ValueError` instead where there is no port. -/
structure Target where
  scheme : List UInt8
  host : List UInt8
  port : Option Int
  path : List UInt8
  deriving DecidableEq, Repr

def urlsplit (url : List UInt8) : SplitResult := (parts url).result

def defaultPort (scheme : List UInt8) : Int := if scheme = str "https" then 443 else 80

def stripUserinfo (netloc : List UInt8) : List UInt8 :=
  match cutFirst '@'.toUInt8 netloc with
  | some (_, behind) => behind
  | none => netloc

def hostPort (scheme netloc : List UInt8) : List UInt8 × Option Int :=
  let netloc := stripUserinfo netloc
  match cutLast ':'.toUInt8 netloc with
  | some (host, portS) => (host, pyInt portS)
  | none => (netloc, some (defaultPort scheme))

def requestPath (path query : List UInt8) : List UInt8 :=
  let path := if path = [] then ['/'.toUInt8] else path
  if query = [] then path else path ++ '?'.toUInt8 :: query

def target (p : SplitResult) : Target :=
  let scheme := lower (if p.scheme = [] then str "http" else p.scheme)
  let (host, port) := hostPort scheme p.netloc
  ⟨scheme, host, port, requestPath p.path p.query⟩

def splitUrl (url : List UInt8) : Target := target (urlsplit url)

/-- `rsplit("/", 1)[0]`. -/
def directory (path : List UInt8) : List UInt8 :=
  match cutLast '/'.toUInt8 path with
  | some (front, _) => front
  | none => path

def resolveRedirect (prevScheme prevHost prevPath location : List UInt8) : List UInt8 :=
  if str "://" <:+: location then location
  else
    let base := prevScheme ++ str "://" ++ prevHost
    if ['/'.toUInt8] <+: location then base ++ location
    else base ++ directory prevPath ++ '/'.toUInt8 :: location

/-! ## Reference resolution -/

/-- The path of the base up to its last slash, with the path of the reference. -/
def merge (base : Parts) (path : List UInt8) : List UInt8 :=
  if base.netloc.isSome ∧ base.path = [] then '/'.toUInt8 :: path
  else
    match cutLast '/'.toUInt8 base.path with
    | some (front, _) => front ++ '/'.toUInt8 :: path
    | none => path

def resolve (base ref : Parts) : Parts :=
  if ref.scheme ≠ none then ref
  else if ref.netloc ≠ none then { ref with scheme := base.scheme }
  else if ref.path = [] then
    { base with
      query := if ref.query = none then base.query else ref.query
      fragment := ref.fragment }
  else
    { base with
      path := if ['/'.toUInt8] <+: ref.path then ref.path else merge base ref.path
      query := ref.query
      fragment := ref.fragment }

def HasHost (url : List UInt8) : Prop := (splitUrl url).host ≠ []

def nextUrl (url location : List UInt8) : List UInt8 :=
  let t := splitUrl url
  resolveRedirect t.scheme t.host t.path location

/-- The next URL denotes the target of the reference. -/
def ResolvesRight (url location : List UInt8) : Prop :=
  splitUrl (nextUrl url location) = target (resolve (parts url) (parts location)).result

/-- The host and the scheme say everything about where the server is. -/
def PlainAuthority (t : Target) : Prop :=
  '@'.toUInt8 ∉ t.host ∧ ':'.toUInt8 ∉ t.host ∧ t.port = some (defaultPort t.scheme)

def basePath (url : List UInt8) : List UInt8 := requestPath (parts url).path []

def baseQuery (url : List UInt8) : List UInt8 := (parts url).query.getD []

/-- The references behind the authority that come out right: an absolute path; no path where
what is kept of the base ends in a slash; a relative path where the base query has none. -/
def KeepsPath (url location : List UInt8) : Prop :=
  let ref := parts location
  if ref.path = [] then
    if ref.query = none then ['/'.toUInt8] <:+ (splitUrl url).path
    else '/'.toUInt8 ∉ baseQuery url ∧ ['/'.toUInt8] <:+ basePath url
  else ['/'.toUInt8] <+: ref.path ∨ '/'.toUInt8 ∉ baseQuery url

def RightForm (url location : List UInt8) : Prop :=
  let ref := parts location
  if ref.scheme ≠ none then str "://" <:+: location
  else if ref.netloc ≠ none then str "://" <:+: location ∧ (splitUrl url).scheme = str "http"
  else ¬ str "://" <:+: location ∧ PlainAuthority (splitUrl url) ∧ KeepsPath url location

instance (url location : List UInt8) : Decidable (ResolvesRight url location) :=
  inferInstanceAs (Decidable (_ = _))

/-! ## Cutting -/

theorem cutFirst_eq_some {c : UInt8} {s front back : List UInt8} :
    cutFirst c s = some (front, back) ↔ s = front ++ c :: back ∧ c ∉ front := by
  constructor
  · intro h
    rw [cutFirst] at h
    split at h
    · cases h
    · next d back' hdrop =>
      cases h
      have hd : d = c := by
        have hstop := head_dropWhile (fun x => decide (x ≠ c)) s d (by rw [hdrop]; rfl)
        simpa using hstop
      refine ⟨?_, fun hmem => ?_⟩
      · rw [← hd, ← hdrop, hd, List.takeWhile_append_dropWhile]
      · have hne := List.mem_takeWhile_imp hmem
        simp at hne
  · rintro ⟨rfl, hfront⟩
    have hpass : ∀ x ∈ front, decide (x ≠ c) = true := fun x hx =>
      decide_eq_true fun heq => hfront (heq ▸ hx)
    have hstop : ∀ x ∈ (c :: back).head?, decide (x ≠ c) = false := by
      intro x hx
      cases hx
      simp
    rw [cutFirst, dropWhile_append_of_stop _ hpass hstop, takeWhile_append_of_stop _ hpass hstop]

theorem cutFirst_eq_none {c : UInt8} {s : List UInt8} : cutFirst c s = none ↔ c ∉ s := by
  constructor
  · intro h hmem
    obtain ⟨front, back, hs, hfront⟩ := List.eq_append_cons_of_mem hmem
    rw [cutFirst_eq_some.mpr ⟨hs, hfront⟩] at h
    cases h
  · intro hmem
    cases hcut : cutFirst c s with
    | none => rfl
    | some cut =>
        obtain ⟨rfl, -⟩ := cutFirst_eq_some.mp hcut
        exact absurd (List.mem_append_right _ List.mem_cons_self) hmem

theorem cutLast_eq_some {c : UInt8} {s front back : List UInt8} :
    cutLast c s = some (front, back) ↔ s = front ++ c :: back ∧ c ∉ back := by
  have hreverse : s.reverse = back.reverse ++ c :: front.reverse ↔ s = front ++ c :: back := by
    rw [List.reverse_eq_iff]
    simp
  rw [← hreverse, ← List.mem_reverse, ← cutFirst_eq_some, cutLast]
  constructor
  · intro h
    obtain ⟨⟨front', back'⟩, hcut, heq⟩ := Option.map_eq_some_iff.mp h
    obtain ⟨rfl, rfl⟩ := Prod.mk.inj heq
    rw [hcut, List.reverse_reverse, List.reverse_reverse]
  · intro h
    rw [h, Option.map_some]
    simp

theorem cutLast_eq_none {c : UInt8} {s : List UInt8} : cutLast c s = none ↔ c ∉ s := by
  rw [cutLast, Option.map_eq_none_iff, cutFirst_eq_none, List.mem_reverse]

/-- `urlsplit` of a text: the components that the pass over it finds. -/
theorem urlsplit_eq {utf8Check : List UInt8 → Bool} (hutf8 : Utf8Law utf8Check)
    {url : List UInt8} (hurl : utf8Check url = true) :
    urllibUrlsplit utf8Check (.str url) = .ok (urlsplit url) := by
  obtain ⟨p, hmatch, -, hsplit⟩ := urllibUrlsplit_matches utf8Check hutf8 hurl
  rw [hsplit, eq_parts hmatch, urlsplit]

theorem mem_of_cutLast {c : UInt8} {s : List UInt8} {cut : List UInt8 × List UInt8}
    (h : cutLast c s = some cut) : c ∈ s := by
  by_contra hmem
  rw [cutLast_eq_none.mpr hmem] at h
  cases h

/-! ## The scheme -/

theorem toLower_cases (c : UInt8) :
    toLower c = c ∧ ¬('A'.toUInt8 ≤ c ∧ c ≤ 'Z'.toUInt8) ∨
      isLetter c = true ∧ 'a'.toUInt8 ≤ toLower c ∧ toLower c ≤ 'z'.toUInt8 := by
  rw [toLower]
  by_cases h : 'A'.toUInt8 ≤ c ∧ c ≤ 'Z'.toUInt8
  · rw [if_pos h]
    have hlow : 65 ≤ c.toNat := UInt8.le_iff_toNat_le.mp h.1
    have hhigh : c.toNat ≤ 90 := UInt8.le_iff_toNat_le.mp h.2
    have hsum : (c + 32).toNat = c.toNat + 32 := by
      rw [UInt8.toNat_add, Nat.mod_eq_of_lt]
      · rfl
      · change c.toNat + 32 < 256
        omega
    refine .inr ⟨by simp [isLetter, h], UInt8.le_iff_toNat_le.mpr ?_, UInt8.le_iff_toNat_le.mpr ?_⟩
    · change 97 ≤ (c + 32).toNat
      omega
    · change (c + 32).toNat ≤ 122
      omega
  · exact .inl ⟨if_neg h, h⟩

theorem isLetter_of_lower {c : UInt8} (h : 'a'.toUInt8 ≤ c ∧ c ≤ 'z'.toUInt8) :
    isLetter c = true := by
  simp [isLetter, h]

theorem toLower_toLower (c : UInt8) : toLower (toLower c) = toLower c := by
  obtain ⟨heq, -⟩ | ⟨-, hlow, -⟩ := toLower_cases c
  · rw [heq, heq]
  · refine if_neg fun hupper => ?_
    exact absurd (UInt8.le_trans hlow hupper.2) (by decide)

theorem isScheme_lower {s : List UInt8} (h : IsScheme s) : IsScheme (lower s) := by
  obtain ⟨c, cs, rfl, hc, hcs⟩ := h
  refine ⟨toLower c, cs.map toLower, rfl, ?_, ?_⟩
  · obtain ⟨heq, -⟩ | ⟨-, hlower⟩ := toLower_cases c
    · rwa [heq]
    · exact isLetter_of_lower hlower
  · intro x hx
    obtain ⟨d, hd, rfl⟩ := List.mem_map.mp hx
    obtain ⟨heq, -⟩ | ⟨-, hlower⟩ := toLower_cases d
    · rw [heq]
      exact hcs d hd
    · simp [isSchemeChar, isLetter_of_lower hlower]

theorem splitUrl_scheme (url : List UInt8) :
    (splitUrl url).scheme =
      lower (if (parts url).scheme.getD [] = [] then str "http"
        else (parts url).scheme.getD []) := rfl

theorem parts_scheme (url : List UInt8) : (parts url).scheme = (cutScheme url).1 := rfl

theorem splitUrl_isScheme (url : List UInt8) : IsScheme (splitUrl url).scheme := by
  rw [splitUrl_scheme]
  apply isScheme_lower
  split
  · exact ⟨_, _, rfl, by decide, List.all_eq_true.mp (by decide)⟩
  · next hne =>
    cases hscheme : (parts url).scheme with
    | none =>
        rw [hscheme] at hne
        exact absurd rfl hne
    | some s => exact (matches_parts url).scheme s hscheme

theorem lower_splitUrl_scheme (url : List UInt8) :
    lower (splitUrl url).scheme = (splitUrl url).scheme := by
  rw [splitUrl_scheme, lower, lower, List.map_map]
  exact List.map_congr_left fun c _ => toLower_toLower c

theorem splitUrl_scheme_ne_nil (url : List UInt8) : (splitUrl url).scheme ≠ [] := by
  obtain ⟨c, cs, hcons, -⟩ := splitUrl_isScheme url
  rw [hcons]
  exact List.cons_ne_nil _ _

theorem str_slashes : str "://" = [':'.toUInt8, '/'.toUInt8, '/'.toUInt8] := rfl

/-- Only a location in which `://` stands changes the scheme. -/
theorem nextUrl_scheme (url location : List UInt8) :
    (splitUrl (nextUrl url location)).scheme =
      if str "://" <:+: location then (splitUrl location).scheme else (splitUrl url).scheme := by
  rw [nextUrl, resolveRedirect]
  split
  · rfl
  · have hbase : ∀ rest, (splitUrl ((splitUrl url).scheme ++ str "://" ++ rest)).scheme =
        (splitUrl url).scheme := by
      intro rest
      have hparts : (parts ((splitUrl url).scheme ++ str "://" ++ rest)).scheme =
          some (splitUrl url).scheme := by
        rw [parts_scheme, str_slashes, List.append_assoc, List.cons_append, cutScheme,
          schemeEnd_of_isScheme (splitUrl_isScheme url)]
        exact congrArg some List.take_left
      rw [splitUrl_scheme, hparts, Option.getD_some, if_neg (splitUrl_scheme_ne_nil url),
        lower_splitUrl_scheme]
    simp only [List.append_assoc] at hbase ⊢
    split <;> exact hbase _

/-! ## The authority -/

theorem stripUserinfo_suffix (netloc : List UInt8) : stripUserinfo netloc <:+ netloc := by
  rw [stripUserinfo]
  split
  · next front behind hcut =>
    rw [(cutFirst_eq_some.mp hcut).1]
    exact (List.suffix_cons _ _).trans (List.suffix_append _ _)
  · exact List.suffix_refl _

theorem stripUserinfo_eq_self_iff {netloc : List UInt8} :
    stripUserinfo netloc = netloc ↔ '@'.toUInt8 ∉ netloc := by
  rw [← cutFirst_eq_none, stripUserinfo]
  split
  · next front behind hcut =>
    obtain ⟨hnetloc, -⟩ := cutFirst_eq_some.mp hcut
    have hlen := congrArg List.length hnetloc
    rw [List.length_append, List.length_cons] at hlen
    constructor
    · intro heq
      rw [heq] at hlen
      omega
    · intro hnone
      rw [hcut] at hnone
      cases hnone
  · next hcut => exact iff_of_true rfl hcut

theorem hostPort_of_strip (scheme netloc : List UInt8) :
    (hostPort scheme netloc).1 <+: stripUserinfo netloc := by
  rw [hostPort]
  split
  · next host portS hcut =>
    rw [(cutLast_eq_some.mp hcut).1]
    exact List.prefix_append _ _
  · exact List.prefix_refl _

theorem hostPort_infix (scheme netloc : List UInt8) :
    (hostPort scheme netloc).1 <:+: netloc :=
  (hostPort_of_strip scheme netloc).isInfix.trans (stripUserinfo_suffix netloc).isInfix

theorem hostPort_eq_self_iff {scheme netloc : List UInt8} {port : Option Int} :
    hostPort scheme netloc = (netloc, port) ↔
      '@'.toUInt8 ∉ netloc ∧ ':'.toUInt8 ∉ netloc ∧ port = some (defaultPort scheme) := by
  constructor
  · intro h
    have hhost : (hostPort scheme netloc).1 = netloc := congrArg Prod.fst h
    have hstrip : stripUserinfo netloc = netloc := by
      refine (stripUserinfo_suffix netloc).eq_of_length_le ?_
      have hle := (hostPort_of_strip scheme netloc).length_le
      rwa [hhost] at hle
    refine ⟨stripUserinfo_eq_self_iff.mp hstrip, ?_⟩
    rw [hostPort, hstrip] at h
    split at h
    · next host portS hcut =>
      obtain ⟨rfl, -⟩ := Prod.mk.inj h
      have hlen := congrArg List.length (cutLast_eq_some.mp hcut).1
      rw [List.length_append, List.length_cons] at hlen
      omega
    · next hcut => exact ⟨cutLast_eq_none.mp hcut, (congrArg Prod.snd h).symm⟩
  · rintro ⟨hat, hcolon, rfl⟩
    rw [hostPort, stripUserinfo_eq_self_iff.mpr hat, cutLast_eq_none.mpr hcolon]

/-- The target at the scheme and the host of `t`: `_split_url` takes the host as a netloc. -/
def Target.at (t : Target) (path : List UInt8) : Target :=
  let (host, port) := hostPort t.scheme t.host
  ⟨t.scheme, host, port, path⟩

theorem Target.at_eq_iff {t : Target} {path path' : List UInt8} :
    t.at path = { t with path := path' } ↔ PlainAuthority t ∧ path = path' := by
  have hpair : t.at path = { t with path := path' } ↔
      hostPort t.scheme t.host = (t.host, t.port) ∧ path = path' := by
    rw [Target.at, Target.mk.injEq, Prod.ext_iff]
    simp only [true_and, and_assoc]
  rw [hpair, hostPort_eq_self_iff, PlainAuthority]

theorem target_eq_of_authority {p q : Parts} (hscheme : p.scheme = q.scheme)
    (hnetloc : p.netloc = q.netloc) :
    target p.result =
      { target q.result with path := requestPath p.path (p.query.getD []) } := by
  cases p
  cases q
  cases hscheme
  cases hnetloc
  rfl

theorem target_some {scheme netloc path : List UInt8} {query fragment : Option (List UInt8)}
    (hscheme : scheme ≠ []) :
    target (Parts.result ⟨some scheme, some netloc, path, query, fragment⟩) =
      ⟨lower scheme, (hostPort (lower scheme) netloc).1, (hostPort (lower scheme) netloc).2,
        requestPath path (query.getD [])⟩ := by
  cases scheme with
  | nil => exact absurd rfl hscheme
  | cons c cs => rfl

theorem target_eq_of_scheme {p q : Parts}
    (hscheme : (target p.result).scheme = (target q.result).scheme) (hnetloc : p.netloc = q.netloc)
    (hpath : p.path = q.path) (hquery : p.query = q.query) :
    target p.result = target q.result := by
  change Target.mk (target p.result).scheme
      (hostPort (target p.result).scheme (p.netloc.getD [])).1
      (hostPort (target p.result).scheme (p.netloc.getD [])).2
      (requestPath p.path (p.query.getD [])) = _
  rw [hscheme, hnetloc, hpath, hquery]
  rfl

theorem target_host_of_none {p : Parts} (hnetloc : p.netloc = none) :
    (target p.result).host = [] := by
  change (hostPort (target p.result).scheme (p.netloc.getD [])).1 = []
  rw [hnetloc]
  rfl

theorem parts_of_authority {scheme host path : List UInt8} {query fragment : Option (List UInt8)}
    (hscheme : IsScheme scheme) (hhost : ∀ c ∈ host, inNetloc c = true)
    (hhead : ∀ c ∈ path.head?, c = '/'.toUInt8) (hpath : ∀ c ∈ path, inPath c = true)
    (hquery : ∀ q ∈ query, ∀ c ∈ q, inQuery c = true) :
    parts (scheme ++ str "://" ++ host ++
        (path ++ (optional ['?'.toUInt8] query ++ optional ['#'.toUInt8] fragment))) =
      ⟨some scheme, some host, path, query, fragment⟩ := by
  refine (eq_parts ⟨?_, ?_, by simp, ?_, by simp, fun _ => hhead, hpath, hquery⟩).symm
  · simp [Parts.text, Parts.netlocText, Parts.pathText, Parts.queryText, Parts.fragmentText,
      str_slashes, Urllib.Split.optional]
  · rintro _ ⟨⟩
    exact hscheme
  · rintro _ ⟨⟩
    exact hhost

namespace HasHost

variable {url : List UInt8} (h : HasHost url)

include h

theorem netloc : (parts url).netloc ≠ none := fun hnone => h (target_host_of_none hnone)

theorem host_inNetloc : ∀ c ∈ (splitUrl url).host, inNetloc c = true := by
  intro c hc
  have hinfix : (splitUrl url).host <:+: (parts url).netloc.getD [] := hostPort_infix _ _
  have hmem := hinfix.subset hc
  cases hnetloc : (parts url).netloc with
  | none => exact absurd hnetloc h.netloc
  | some a =>
      rw [hnetloc] at hmem
      exact (matches_parts url).netloc a hnetloc c hmem

theorem splitUrl_at (path : List UInt8) {query : Option (List UInt8)}
    (fragment : Option (List UInt8)) (hhead : ∀ c ∈ path.head?, c = '/'.toUInt8)
    (hpath : ∀ c ∈ path, inPath c = true)
    (hquery : ∀ q ∈ query, ∀ c ∈ q, inQuery c = true) :
    splitUrl ((splitUrl url).scheme ++ str "://" ++ (splitUrl url).host ++
        (path ++ (optional ['?'.toUInt8] query ++ optional ['#'.toUInt8] fragment))) =
      (splitUrl url).at (requestPath path (query.getD [])) := by
  rw [splitUrl, urlsplit,
    parts_of_authority (splitUrl_isScheme url) h.host_inNetloc hhead hpath hquery,
    target_some (splitUrl_scheme_ne_nil url), lower_splitUrl_scheme, Target.at]

end HasHost

/-! ## The path of the base -/

theorem requestPath_eq (path query : List UInt8) :
    requestPath path query =
      requestPath path [] ++ optional ['?'.toUInt8] (if query = [] then none else some query) := by
  simp only [requestPath, if_true]
  split <;> simp [Urllib.Split.optional, *]

theorem requestPath_of_ne_nil {path : List UInt8} (h : path ≠ []) : requestPath path [] = path := by
  rw [requestPath, if_pos rfl, if_neg h]

theorem directory_of_cutLast {path front back : List UInt8}
    (h : cutLast '/'.toUInt8 path = some (front, back)) : directory path = front := by
  rw [directory, h]

theorem slash_suffix_iff {path : List UInt8} (h : '/'.toUInt8 ∈ path) :
    ['/'.toUInt8] <:+ path ↔ path = directory path ++ ['/'.toUInt8] := by
  cases hcut : cutLast '/'.toUInt8 path with
  | none => exact absurd h (cutLast_eq_none.mp hcut)
  | some cut =>
      obtain ⟨front, back⟩ := cut
      obtain ⟨hpath, hback⟩ := cutLast_eq_some.mp hcut
      rw [directory_of_cutLast hcut]
      constructor
      · rintro ⟨init, hinit⟩
        have hlast : cutLast '/'.toUInt8 path = some (init, []) :=
          cutLast_eq_some.mpr ⟨hinit.symm, List.not_mem_nil⟩
        rw [hcut] at hlast
        cases hlast
        exact hpath
      · intro hpath
        exact ⟨front, hpath.symm⟩

variable {url front back : List UInt8}

theorem basePath_inPath : ∀ c ∈ basePath url, inPath c = true := by
  intro c hc
  rw [basePath, requestPath, if_pos rfl] at hc
  split at hc
  · rw [List.mem_singleton.mp hc]
    decide
  · exact (matches_parts url).path c hc

theorem baseQuery_inQuery : ∀ c ∈ baseQuery url, inQuery c = true := by
  intro c hc
  cases hquery : (parts url).query with
  | none =>
      rw [baseQuery, hquery] at hc
      cases hc
  | some q =>
      rw [baseQuery, hquery] at hc
      exact (matches_parts url).query q hquery c hc

theorem path_eq : (splitUrl url).path = basePath url ++
    optional ['?'.toUInt8] (if baseQuery url = [] then none else some (baseQuery url)) :=
  requestPath_eq _ _

theorem front_inPath (hcut : cutLast '/'.toUInt8 (basePath url) = some (front, back)) :
    ∀ c ∈ front, inPath c = true := by
  intro c hc
  have hmem : c ∈ basePath url := by
    rw [(cutLast_eq_some.mp hcut).1]
    exact List.mem_append_left _ hc
  exact basePath_inPath c hmem

theorem directory_of_not_mem (hcut : cutLast '/'.toUInt8 (basePath url) = some (front, back))
    (hquery : '/'.toUInt8 ∉ baseQuery url) : directory (splitUrl url).path = front := by
  obtain ⟨hpath, hback⟩ := cutLast_eq_some.mp hcut
  have hlast : cutLast '/'.toUInt8 (splitUrl url).path = some (front, back ++
      optional ['?'.toUInt8] (if baseQuery url = [] then none else some (baseQuery url))) := by
    refine cutLast_eq_some.mpr ⟨?_, ?_⟩
    · rw [path_eq, hpath, List.append_assoc, List.cons_append]
    · rw [List.mem_append]
      rintro (hmem | hmem)
      · exact hback hmem
      · split at hmem
        · cases hmem
        · rcases List.mem_cons.mp hmem with hmem | hmem
          · revert hmem
            decide
          · exact hquery hmem
  exact directory_of_cutLast hlast

theorem directory_of_query {dir last : List UInt8}
    (hcut : cutLast '/'.toUInt8 (baseQuery url) = some (dir, last)) :
    directory (splitUrl url).path = basePath url ++ '?'.toUInt8 :: dir := by
  obtain ⟨hquery, hlast⟩ := cutLast_eq_some.mp hcut
  have hne : baseQuery url ≠ [] := by
    rw [hquery]
    simp
  refine directory_of_cutLast (cutLast_eq_some.mpr ⟨?_, hlast⟩)
  rw [path_eq, if_neg hne, hquery]
  simp [Urllib.Split.optional]

namespace HasHost

variable (h : HasHost url)

include h

theorem basePath_eq_cons : ∃ cs, basePath url = '/'.toUInt8 :: cs := by
  rw [basePath, requestPath, if_pos rfl]
  cases hpath : (parts url).path with
  | nil => exact ⟨[], rfl⟩
  | cons c cs =>
      have hc := (matches_parts url).netloc_longest h.netloc c (by rw [hpath]; rfl)
      exact ⟨cs, by rw [hc]; rfl⟩

theorem slash_mem_basePath : '/'.toUInt8 ∈ basePath url := by
  obtain ⟨cs, hcs⟩ := h.basePath_eq_cons
  rw [hcs]
  exact List.mem_cons_self

theorem slash_mem_path : '/'.toUInt8 ∈ (splitUrl url).path := by
  rw [path_eq]
  exact List.mem_append_left _ h.slash_mem_basePath

theorem exists_cut : ∃ front back, cutLast '/'.toUInt8 (basePath url) = some (front, back) := by
  cases hcut : cutLast '/'.toUInt8 (basePath url) with
  | none => exact absurd h.slash_mem_basePath (cutLast_eq_none.mp hcut)
  | some cut => exact ⟨cut.1, cut.2, rfl⟩

theorem head_front (hcut : cutLast '/'.toUInt8 (basePath url) = some (front, back)) :
    ∀ c ∈ front.head?, c = '/'.toUInt8 := by
  obtain ⟨cs, hcs⟩ := h.basePath_eq_cons
  rw [(cutLast_eq_some.mp hcut).1] at hcs
  rintro c hc
  cases front with
  | nil => cases hc
  | cons d ds =>
      cases hc
      exact (List.cons.inj hcs).1

/-- The base with its last segment replaced. -/
theorem merge_eq (hcut : cutLast '/'.toUInt8 (basePath url) = some (front, back))
    (path : List UInt8) : merge (parts url) path = front ++ '/'.toUInt8 :: path := by
  rw [merge]
  rw [basePath, requestPath, if_pos rfl] at hcut
  split
  · next hempty =>
    rw [if_pos hempty.2] at hcut
    cases hcut
    rfl
  · next hempty =>
    have hpath : (parts url).path ≠ [] := fun hpath =>
      hempty ⟨Option.isSome_iff_ne_none.mpr h.netloc, hpath⟩
    rw [if_neg hpath] at hcut
    rw [hcut]

end HasHost

/-! ## The text before the query -/

/-- A reference up to its query: its scheme, its authority and its path. -/
def beforeQuery (p : Parts) : List UInt8 :=
  (match p.scheme with
    | none => []
    | some s => s ++ [':'.toUInt8]) ++
    (optional ['/'.toUInt8, '/'.toUInt8] p.netloc ++ p.path)

theorem location_eq (location : List UInt8) :
    location = beforeQuery (parts location) ++ (parts location).queryText := by
  have htext := (matches_parts location).text
  conv_lhs => rw [← htext]
  rw [Parts.text, beforeQuery, Parts.netlocText, Parts.pathText]
  cases (parts location).scheme <;> simp

theorem beforeQuery_of_none {p : Parts} (hscheme : p.scheme = none) (hnetloc : p.netloc = none) :
    beforeQuery p = p.path := by
  rw [beforeQuery, hscheme, hnetloc]
  rfl

theorem inPath_of_ne {c : UInt8} (hmark : c ≠ '?'.toUInt8) (hhash : c ≠ '#'.toUInt8) :
    inPath c = true := by
  simp only [inPath, Bool.and_eq_true, decide_eq_true_eq]
  exact ⟨hmark, hhash⟩

theorem inPath_of_isSchemeChar {c : UInt8} (h : isSchemeChar c = true) : inPath c = true := by
  apply inPath_of_ne <;> (rintro rfl; revert h; decide)

theorem inPath_beforeQuery {p : Parts} {url : List UInt8} (h : Matches p url) :
    ∀ c ∈ beforeQuery p, inPath c = true := by
  refine List.forall_mem_append.mpr ⟨?_, List.forall_mem_append.mpr ⟨?_, h.path⟩⟩
  · cases hs : p.scheme with
    | none => simp
    | some s =>
        obtain ⟨c, cs, rfl, hc, hcs⟩ := h.scheme s hs
        have hc' : isSchemeChar c = true := by simp [isSchemeChar, hc]
        refine List.forall_mem_append.mpr ⟨List.forall_mem_cons.mpr
          ⟨inPath_of_isSchemeChar hc', fun d hd => inPath_of_isSchemeChar (hcs d hd)⟩, ?_⟩
        exact List.forall_mem_singleton.mpr (by decide)
  · cases hn : p.netloc with
    | none => simp [Urllib.Split.optional]
    | some a =>
        refine List.forall_mem_cons.mpr ⟨by decide, List.forall_mem_cons.mpr ⟨by decide, ?_⟩⟩
        intro c hc
        have hstop := h.netloc a hn c hc
        simp only [inNetloc, Bool.and_eq_true, decide_eq_true_eq] at hstop
        exact inPath_of_ne hstop.1.2 hstop.2

theorem length_beforeQuery {p : Parts} {url : List UInt8} (h : Matches p url)
    (hmore : p.scheme ≠ none ∨ p.netloc ≠ none) : p.path.length + 2 ≤ (beforeQuery p).length := by
  rw [beforeQuery, List.length_append, List.length_append]
  cases hs : p.scheme with
  | some s =>
      obtain ⟨c, cs, rfl, -⟩ := h.scheme s hs
      simp only [List.length_append, List.length_cons]
      omega
  | none =>
      cases hn : p.netloc with
      | none => exact (hmore.elim (· hs) (· hn)).elim
      | some a =>
          simp only [Urllib.Split.optional, List.length_append, List.length_cons]
          omega

theorem slash_prefix_iff {location : List UInt8} :
    ['/'.toUInt8] <+: location ↔ ['/'.toUInt8] <+: beforeQuery (parts location) := by
  have hloc := location_eq location
  constructor
  · intro habs
    rw [hloc] at habs
    cases hbefore : beforeQuery (parts location) with
    | nil =>
        rw [hbefore, List.nil_append] at habs
        obtain ⟨rest, hrest⟩ := habs
        obtain hhead | hhead := head_queryText '/'.toUInt8 (by rw [← hrest]; rfl)
        all_goals
          revert hhead
          decide
    | cons c cs =>
        rw [hbefore, List.cons_append] at habs
        rw [(List.cons_prefix_cons.mp habs).1]
        exact List.prefix_append _ _
  · intro habs
    rw [hloc]
    exact habs.trans (List.prefix_append _ _)

/-! ## The next URL -/

section
variable {url location : List UInt8} (h : HasHost url) (hmark : ¬ str "://" <:+: location)

include h hmark

/-- A reference that is put behind the authority as it is. -/
theorem splitUrl_absolute (habs : ['/'.toUInt8] <+: location) :
    splitUrl (nextUrl url location) = (splitUrl url).at
      (requestPath (beforeQuery (parts location)) ((parts location).query.getD [])) := by
  have hmatch := matches_parts location
  have hhead : ∀ c ∈ (beforeQuery (parts location)).head?, c = '/'.toUInt8 := by
    obtain ⟨cs, hcs⟩ := slash_prefix_iff.mp habs
    rw [← hcs]
    exact fun c hc => (Option.some.inj hc).symm
  have hnext := h.splitUrl_at _ (parts location).fragment hhead (inPath_beforeQuery hmatch)
    hmatch.query
  rw [← hnext, nextUrl, resolveRedirect, if_neg hmark, if_pos habs]
  conv_lhs => rw [location_eq location]
  rfl

/-- A reference put behind the directory of a base whose query has no slash. -/
theorem splitUrl_relative (hrel : ¬ ['/'.toUInt8] <+: location) {front back : List UInt8}
    (hcut : cutLast '/'.toUInt8 (basePath url) = some (front, back))
    (hquery : '/'.toUInt8 ∉ baseQuery url) :
    splitUrl (nextUrl url location) = (splitUrl url).at
      (requestPath (front ++ '/'.toUInt8 :: beforeQuery (parts location))
        ((parts location).query.getD [])) := by
  have hmatch := matches_parts location
  have hhead : ∀ c ∈ (front ++ '/'.toUInt8 :: beforeQuery (parts location)).head?,
      c = '/'.toUInt8 := by
    have hfront := h.head_front hcut
    cases front with
    | nil => exact fun c hc => (Option.some.inj hc).symm
    | cons d ds => exact hfront
  have hpath : ∀ c ∈ front ++ '/'.toUInt8 :: beforeQuery (parts location), inPath c = true :=
    List.forall_mem_append.mpr ⟨front_inPath hcut, List.forall_mem_cons.mpr
      ⟨by decide, inPath_beforeQuery hmatch⟩⟩
  have hnext := h.splitUrl_at _ (parts location).fragment hhead hpath hmatch.query
  rw [← hnext, nextUrl, resolveRedirect, if_neg hmark, if_neg hrel,
    directory_of_not_mem hcut hquery]
  conv_lhs => rw [location_eq location]
  simp only [Parts.queryText, Parts.fragmentText, List.append_assoc, List.cons_append]

/-- A reference put behind a part of the query of the base: it becomes the end of a query. -/
theorem splitUrl_in_query (hrel : ¬ ['/'.toUInt8] <+: location) {dir last : List UInt8}
    (hcut : cutLast '/'.toUInt8 (baseQuery url) = some (dir, last)) :
    splitUrl (nextUrl url location) = (splitUrl url).at
      (basePath url ++ '?'.toUInt8 :: (dir ++ '/'.toUInt8 ::
        (beforeQuery (parts location) ++ optional ['?'.toUInt8] (parts location).query))) := by
  have hmatch := matches_parts location
  have hpass : ∀ c, inPath c = true → inQuery c = true := by
    intro c hc
    rw [inPath, Bool.and_eq_true] at hc
    exact hc.2
  have hdir : ∀ c ∈ dir, inQuery c = true := by
    intro c hc
    apply baseQuery_inQuery c
    rw [(cutLast_eq_some.mp hcut).1]
    exact List.mem_append_left _ hc
  have hmarked : ∀ c ∈ optional ['?'.toUInt8] (parts location).query, inQuery c = true := by
    cases hq : (parts location).query with
    | none => simp [Urllib.Split.optional]
    | some q => exact List.forall_mem_cons.mpr ⟨by decide, hmatch.query q hq⟩
  obtain ⟨cs, hcs⟩ := h.basePath_eq_cons
  have hhead : ∀ c ∈ (basePath url).head?, c = '/'.toUInt8 := by
    rw [hcs]
    exact fun c hc => (Option.some.inj hc).symm
  have hquery : ∀ q ∈ some (dir ++ '/'.toUInt8 ::
      (beforeQuery (parts location) ++ optional ['?'.toUInt8] (parts location).query)),
      ∀ c ∈ q, inQuery c = true := by
    rintro _ ⟨⟩
    exact List.forall_mem_append.mpr ⟨hdir, List.forall_mem_cons.mpr ⟨by decide,
      List.forall_mem_append.mpr ⟨fun c hc => hpass c (inPath_beforeQuery hmatch c hc), hmarked⟩⟩⟩
  have hnext := h.splitUrl_at _ (parts location).fragment hhead basePath_inPath hquery
  have hpath : requestPath (basePath url) ((some (dir ++ '/'.toUInt8 ::
      (beforeQuery (parts location) ++
        optional ['?'.toUInt8] (parts location).query))).getD []) =
      basePath url ++ '?'.toUInt8 :: (dir ++ '/'.toUInt8 ::
        (beforeQuery (parts location) ++ optional ['?'.toUInt8] (parts location).query)) := by
    rw [Option.getD_some, requestPath, if_neg (by simp), if_neg (by simp [hcs])]
  rw [← hpath, ← hnext, nextUrl, resolveRedirect, if_neg hmark, if_neg hrel,
    directory_of_query hcut]
  conv_lhs => rw [location_eq location]
  simp only [Parts.queryText, Parts.fragmentText, Urllib.Split.optional, List.append_assoc,
    List.cons_append, List.nil_append]

end

/-! ## The target of a reference -/

theorem length_requestPath (path query : List UInt8) :
    (requestPath path query).length =
      max path.length 1 + if query = [] then 0 else query.length + 1 := by
  cases path <;> cases query <;> simp [requestPath] <;> omega

theorem length_requestPath_le (p : Parts) :
    (requestPath p.path (p.query.getD [])).length ≤
      max p.path.length 1 + (optional ['?'.toUInt8] p.query).length := by
  rw [length_requestPath]
  cases p.query with
  | none => simp
  | some q =>
      simp only [Option.getD_some, Urllib.Split.optional, List.length_append,
        List.length_singleton]
      split <;> omega

/-- A question mark stands before a query only. -/
theorem count_requestPath_le {path : List UInt8} (hpath : ∀ c ∈ path, inPath c = true)
    (query : Option (List UInt8)) :
    (requestPath path (query.getD [])).count '?'.toUInt8 ≤
      (optional ['?'.toUInt8] query).count '?'.toUInt8 := by
  have hnone : (requestPath path []).count '?'.toUInt8 = 0 := by
    refine List.count_eq_zero.mpr fun hmem => ?_
    rw [requestPath, if_pos rfl] at hmem
    split at hmem
    · revert hmem
      decide
    · exact absurd (hpath _ hmem) (by decide)
  rw [requestPath_eq, List.count_append, hnone, Nat.zero_add]
  cases query with
  | none => exact Nat.le_refl _
  | some q =>
      rw [Option.getD_some]
      split
      · exact Nat.zero_le _
      · exact Nat.le_refl _

/-- Behind a part of the query of the base, a reference has a question mark too many. -/
theorem ne_of_in_query {base dir before path : List UInt8} {query : Option (List UInt8)}
    (hpath : ∀ c ∈ path, inPath c = true) :
    base ++ '?'.toUInt8 :: (dir ++ '/'.toUInt8 :: (before ++ optional ['?'.toUInt8] query)) ≠
      requestPath path (query.getD []) := by
  intro heq
  have hcount := congrArg (List.count '?'.toUInt8) heq
  have hle := count_requestPath_le hpath query
  rw [List.count_append, List.count_cons_self, List.count_append, List.count_cons,
    List.count_append] at hcount
  omega

section
variable {url location : List UInt8} (hscheme : (parts location).scheme = none)
  (hnetloc : (parts location).netloc = none)

include hscheme hnetloc

theorem resolve_eq :
    resolve (parts url) (parts location) =
      if (parts location).path = [] then
        { parts url with
          query := if (parts location).query = none then (parts url).query
            else (parts location).query
          fragment := (parts location).fragment }
      else
        { parts url with
          path := if ['/'.toUInt8] <+: (parts location).path then (parts location).path
            else merge (parts url) (parts location).path
          query := (parts location).query
          fragment := (parts location).fragment } := by
  rw [resolve, if_neg (by simp [hscheme]), if_neg (by simp [hnetloc])]

theorem target_resolve :
    target (resolve (parts url) (parts location)).result =
      { splitUrl url with
        path := (target (resolve (parts url) (parts location)).result).path } := by
  apply target_eq_of_authority <;>
    · rw [resolve_eq hscheme hnetloc]
      split <;> rfl

/-- Where the next URL denotes a path behind the base. -/
theorem resolvesRight_iff_of_at {path : List UInt8}
    (hnext : splitUrl (nextUrl url location) = (splitUrl url).at path) :
    ResolvesRight url location ↔ PlainAuthority (splitUrl url) ∧
      path = (target (resolve (parts url) (parts location)).result).path := by
  rw [ResolvesRight, hnext, target_resolve hscheme hnetloc]
  exact Target.at_eq_iff

end

namespace HasHost

variable {url location : List UInt8} (h : HasHost url)

include h

/-- A reference with a scheme or an authority of its own is no path: put behind the base as
one, it gives a path that is too long. -/
theorem not_resolvesRight_of_more (hmark : ¬ str "://" <:+: location)
    (hmore : (parts location).scheme ≠ none ∨ (parts location).netloc ≠ none) :
    ¬ ResolvesRight url location := by
  intro hright
  have hlen := length_beforeQuery (matches_parts location) hmore
  have hle := length_requestPath_le (parts location)
  have hresolved : (target (resolve (parts url) (parts location)).result).path =
      requestPath (parts location).path ((parts location).query.getD []) := by
    rw [resolve]
    by_cases hscheme : (parts location).scheme = none
    · rw [if_neg (by simp [hscheme]), if_pos (hmore.resolve_left (by simp [hscheme]))]
      rfl
    · rw [if_pos hscheme]
      rfl
  have hlength := congrArg (fun t => t.path.length) hright
  simp only [hresolved] at hlength
  by_cases habs : ['/'.toUInt8] <+: location
  · rw [splitUrl_absolute h hmark habs] at hlength
    change (requestPath _ _).length = _ at hlength
    rw [length_requestPath, length_requestPath] at hlength
    omega
  · cases hcut : cutLast '/'.toUInt8 (baseQuery url) with
    | none =>
        obtain ⟨front, back, hfront⟩ := h.exists_cut
        rw [splitUrl_relative h hmark habs hfront (cutLast_eq_none.mp hcut)] at hlength
        change (requestPath _ _).length = _ at hlength
        rw [length_requestPath, length_requestPath, List.length_append,
          List.length_cons] at hlength
        omega
    | some cut =>
        rw [splitUrl_in_query h hmark habs hcut] at hlength
        change (basePath url ++ _).length = _ at hlength
        simp only [List.length_append, List.length_cons] at hlength
        omega

section
variable (hmark : ¬ str "://" <:+: location) (hscheme : (parts location).scheme = none)
  (hnetloc : (parts location).netloc = none)

include hmark hscheme hnetloc

theorem resolvesRight_iff_of_absolute (habs : ['/'.toUInt8] <+: (parts location).path) :
    ResolvesRight url location ↔ PlainAuthority (splitUrl url) := by
  have hbefore := beforeQuery_of_none hscheme hnetloc
  have hne : (parts location).path ≠ [] := by
    intro hpath
    rw [hpath, List.prefix_nil] at habs
    cases habs
  have hnext := splitUrl_absolute h hmark (slash_prefix_iff.mpr (hbefore.symm ▸ habs))
  rw [resolvesRight_iff_of_at hscheme hnetloc hnext, hbefore, resolve_eq hscheme hnetloc,
    if_neg hne, if_pos habs]
  exact and_iff_left rfl

theorem resolvesRight_iff_of_relative (hne : (parts location).path ≠ [])
    (hrel : ¬ ['/'.toUInt8] <+: (parts location).path) :
    ResolvesRight url location ↔
      PlainAuthority (splitUrl url) ∧ '/'.toUInt8 ∉ baseQuery url := by
  have hbefore := beforeQuery_of_none hscheme hnetloc
  have hrel' : ¬ ['/'.toUInt8] <+: location := by
    rwa [slash_prefix_iff, hbefore]
  obtain ⟨front, back, hfront⟩ := h.exists_cut
  have hresolved : (target (resolve (parts url) (parts location)).result).path =
      requestPath (front ++ '/'.toUInt8 :: (parts location).path)
        ((parts location).query.getD []) := by
    rw [resolve_eq hscheme hnetloc, if_neg hne, if_neg hrel,
      h.merge_eq hfront (parts location).path]
    rfl
  cases hcut : cutLast '/'.toUInt8 (baseQuery url) with
  | none =>
      have hquery := cutLast_eq_none.mp hcut
      have hnext := splitUrl_relative h hmark hrel' hfront hquery
      rw [resolvesRight_iff_of_at hscheme hnetloc hnext, hresolved, hbefore]
      exact and_congr_right fun _ => iff_of_true rfl hquery
  | some cut =>
      have hnext := splitUrl_in_query h hmark hrel' hcut
      rw [resolvesRight_iff_of_at hscheme hnetloc hnext, hresolved]
      have hpath : ∀ c ∈ front ++ '/'.toUInt8 :: (parts location).path, inPath c = true :=
        List.forall_mem_append.mpr ⟨front_inPath hfront, List.forall_mem_cons.mpr
          ⟨by decide, (matches_parts location).path⟩⟩
      exact and_congr_right fun _ =>
        iff_of_false (ne_of_in_query hpath) (not_not.mpr (mem_of_cutLast hcut))

section
variable (hpath : (parts location).path = [])

include hpath

omit h hmark in
theorem not_slash_prefix : ¬ ['/'.toUInt8] <+: location := by
  rw [slash_prefix_iff, beforeQuery_of_none hscheme hnetloc, hpath, List.prefix_nil]
  exact List.cons_ne_nil _ _

/-- No path and no query: the fragment is not requested, and the next URL is the directory. -/
theorem resolvesRight_iff_of_fragment (hquery : (parts location).query = none) :
    ResolvesRight url location ↔
      PlainAuthority (splitUrl url) ∧ ['/'.toUInt8] <:+ (splitUrl url).path := by
  have hbefore := beforeQuery_of_none hscheme hnetloc
  have hrel := not_slash_prefix hscheme hnetloc hpath
  obtain ⟨front, back, hfront⟩ := h.exists_cut
  have hresolved : (target (resolve (parts url) (parts location)).result).path =
      (splitUrl url).path := by
    rw [resolve_eq hscheme hnetloc, if_pos hpath, hquery]
    rfl
  have hnext : splitUrl (nextUrl url location) =
      (splitUrl url).at (directory (splitUrl url).path ++ ['/'.toUInt8]) := by
    cases hcut : cutLast '/'.toUInt8 (baseQuery url) with
    | none =>
        have hq := cutLast_eq_none.mp hcut
        rw [splitUrl_relative h hmark hrel hfront hq, hbefore, hpath, hquery,
          directory_of_not_mem hfront hq, Option.getD_none, requestPath_of_ne_nil (by simp)]
    | some cut =>
        rw [splitUrl_in_query h hmark hrel hcut, hbefore, hpath, hquery, directory_of_query hcut]
        simp [Urllib.Split.optional]
  rw [resolvesRight_iff_of_at hscheme hnetloc hnext, hresolved, slash_suffix_iff h.slash_mem_path]
  exact and_congr_right fun _ => eq_comm

/-- A query alone goes behind the directory, not behind the path. -/
theorem resolvesRight_iff_of_query (hquery : (parts location).query ≠ none) :
    ResolvesRight url location ↔ PlainAuthority (splitUrl url) ∧
      '/'.toUInt8 ∉ baseQuery url ∧ ['/'.toUInt8] <:+ basePath url := by
  have hbefore := beforeQuery_of_none hscheme hnetloc
  have hrel := not_slash_prefix hscheme hnetloc hpath
  obtain ⟨front, back, hfront⟩ := h.exists_cut
  have hresolved : (target (resolve (parts url) (parts location)).result).path =
      requestPath (parts url).path ((parts location).query.getD []) := by
    rw [resolve_eq hscheme hnetloc, if_pos hpath, if_neg hquery]
    rfl
  cases hcut : cutLast '/'.toUInt8 (baseQuery url) with
  | none =>
      have hq := cutLast_eq_none.mp hcut
      have hnext := splitUrl_relative h hmark hrel hfront hq
      rw [resolvesRight_iff_of_at hscheme hnetloc hnext, hresolved, hbefore, hpath,
        and_iff_right hq, slash_suffix_iff h.slash_mem_basePath, directory_of_cutLast hfront,
        requestPath_eq, requestPath_of_ne_nil (by simp), requestPath_eq (parts url).path,
        List.append_cancel_right_eq]
      exact and_congr_right fun _ => eq_comm
  | some cut =>
      have hnext := splitUrl_in_query h hmark hrel hcut
      rw [resolvesRight_iff_of_at hscheme hnetloc hnext, hresolved]
      exact and_congr_right fun _ => iff_of_false (ne_of_in_query (matches_parts url).path)
        fun hkeeps => hkeeps.1 (mem_of_cutLast hcut)

end

theorem resolvesRight_iff_of_path :
    ResolvesRight url location ↔ PlainAuthority (splitUrl url) ∧ KeepsPath url location := by
  rw [KeepsPath]
  by_cases hpath : (parts location).path = []
  · rw [if_pos hpath]
    by_cases hquery : (parts location).query = none
    · rw [if_pos hquery]
      exact h.resolvesRight_iff_of_fragment hmark hscheme hnetloc hpath hquery
    · rw [if_neg hquery]
      exact h.resolvesRight_iff_of_query hmark hscheme hnetloc hpath hquery
  · rw [if_neg hpath]
    by_cases habs : ['/'.toUInt8] <+: (parts location).path
    · rw [h.resolvesRight_iff_of_absolute hmark hscheme hnetloc habs]
      exact (and_iff_left (.inl habs)).symm
    · rw [h.resolvesRight_iff_of_relative hmark hscheme hnetloc hpath habs, or_iff_right habs]

end

/-- A reference in which `://` stands is taken as it is. -/
theorem resolvesRight_iff_of_mark (hmark : str "://" <:+: location) :
    ResolvesRight url location ↔ (parts location).scheme ≠ none ∨
      (parts location).netloc ≠ none ∧ (splitUrl url).scheme = str "http" := by
  have hnext : splitUrl (nextUrl url location) = target (parts location).result := by
    rw [nextUrl, resolveRedirect, if_pos hmark]
    rfl
  rw [ResolvesRight, hnext]
  by_cases hscheme : (parts location).scheme = none
  · by_cases hnetloc : (parts location).netloc = none
    · refine iff_of_false (fun heq => h ?_) (by simp [hscheme, hnetloc])
      have hhost : (target (resolve (parts url) (parts location)).result).host =
          (splitUrl url).host := by
        rw [target_resolve hscheme hnetloc]
      rw [← hhost, ← heq, target_host_of_none hnetloc]
    · have hresolve : resolve (parts url) (parts location) =
          { parts location with scheme := (parts url).scheme } := by
        rw [resolve, if_neg (by simp [hscheme]), if_pos hnetloc]
      have hbase : (splitUrl url).scheme =
          (target (resolve (parts url) (parts location)).result).scheme := by
        rw [hresolve]
        rfl
      have hhttp : (target (parts location).result).scheme = str "http" := by
        simp only [target, Parts.result, hscheme]
        decide
      constructor
      · intro heq
        exact .inr ⟨hnetloc, by rw [hbase, ← heq, hhttp]⟩
      · rintro (hsome | ⟨-, hsame⟩)
        · exact absurd hscheme hsome
        · refine target_eq_of_scheme ?_ ?_ ?_ ?_
          · rw [← hbase, hsame, hhttp]
          all_goals rw [hresolve]
  · refine iff_of_true ?_ (.inl hscheme)
    rw [resolve, if_pos hscheme]

end HasHost

/-- Which references come out right, for every base and every location. -/
theorem resolveRedirect_denotes_iff {url location : List UInt8} (h : HasHost url) :
    ResolvesRight url location ↔ RightForm url location := by
  rw [RightForm]
  by_cases hscheme : (parts location).scheme = none
  · rw [if_neg (by simp [hscheme])]
    by_cases hnetloc : (parts location).netloc = none
    · rw [if_neg (by simp [hnetloc])]
      by_cases hmark : str "://" <:+: location
      · rw [h.resolvesRight_iff_of_mark hmark]
        simp [hscheme, hnetloc, hmark]
      · rw [h.resolvesRight_iff_of_path hmark hscheme hnetloc]
        exact (and_iff_right hmark).symm
    · rw [if_pos hnetloc]
      by_cases hmark : str "://" <:+: location
      · rw [h.resolvesRight_iff_of_mark hmark]
        simp [hscheme, hnetloc, hmark]
      · exact iff_of_false (h.not_resolvesRight_of_more hmark (.inr hnetloc))
          fun hright => hmark hright.1
  · rw [if_pos hscheme]
    by_cases hmark : str "://" <:+: location
    · rw [h.resolvesRight_iff_of_mark hmark]
      simp [hscheme, hmark]
    · exact iff_of_false (h.not_resolvesRight_of_more hmark (.inl hscheme)) hmark

/-- `y/z` against a base with a query, at the port of its scheme. -/
theorem resolveRedirect_denotes_iff_relative :
    ResolvesRight (str "http://a.com:80/d/e?x=1") (str "y/z") :=
  (resolveRedirect_denotes_iff (by unfold HasHost; decide)).mpr
    (by unfold RightForm KeepsPath PlainAuthority; decide)

/-- A server that is not at the port of its scheme: `/q` is requested from port 80. -/
theorem resolveRedirect_loses_port :
    HasHost (str "http://a.com:8080/p") ∧
      ¬ ResolvesRight (str "http://a.com:8080/p") (str "/q") ∧
      splitUrl (nextUrl (str "http://a.com:8080/p") (str "/q")) =
        ⟨str "http", str "a.com", some 80, str "/q"⟩ ∧
      splitUrl (str "http://a.com:8080/q") =
        ⟨str "http", str "a.com", some 8080, str "/q"⟩ :=
  ⟨by unfold HasHost; decide, by decide, by decide, by decide⟩

end FreedosMicroPython.Wget
