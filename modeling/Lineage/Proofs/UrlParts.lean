import Lineage.Proofs.Interning
import Lineage.Provenance.Position
import Mathlib.Data.List.TakeWhile
import Mathlib.Logic.ExistsUnique
import Mathlib.Tactic.Common

/-!
# The parts of a url

A url with a scheme is put together from its parts: the scheme, perhaps an authority, the file with its query, and
perhaps a fragment (`Body` and `Parts`).  The characters that stand between two parts may occur again further back,
so a url has its parts in one way only because each part ends at the first place where it can.  A url without a
scheme has no parts; nothing but its fragment is cut off.

Main facts: `hasScheme_withoutFragment` (cutting off the fragment neither makes nor breaks a scheme),
`Parts.file_url` (the file part of a url is the part of that name), `Parts.existsUnique_url_iff` (which urls have
parts, and that they have them in one way), `fileChars_of_not_hasScheme`; at the end the file part of a position,
with a scheme in its url and without.
-/

namespace Lineage

namespace Url

/-! ### Cutting a text in two -/

section Cut

variable {q : Char → Bool} {l r : List Char}

theorem takeWhile_append_of_head (hl : ∀ c ∈ l, q c = true) (hr : ∀ c ∈ r.head?, q c = false) :
    (l ++ r).takeWhile q = l := by
  rw [List.takeWhile_append_of_pos hl]
  cases r with
  | nil => simp
  | cons c r => simp [hr c rfl]

theorem dropWhile_append_of_head (hl : ∀ c ∈ l, q c = true) (hr : ∀ c ∈ r.head?, q c = false) :
    (l ++ r).dropWhile q = r := by
  rw [List.dropWhile_append_of_pos hl]
  cases r with
  | nil => rfl
  | cons c r => simp [hr c rfl]

theorem head_dropWhile (q : Char → Bool) (l : List Char) : ∀ c ∈ (l.dropWhile q).head?, q c = false := by
  intro c hc
  have first := List.head?_dropWhile_not q l
  rw [Option.mem_def.mp hc] at first
  exact first

theorem dropWhile_of_mem {d : Char} (h : d ∈ l) : ∃ rest, l.dropWhile (· != d) = d :: rest := by
  cases back : l.dropWhile (· != d) with
  | nil =>
    have missing := List.dropWhile_eq_nil_iff.mp back d h
    simp at missing
  | cons c rest =>
    have first : (c != d) = false := head_dropWhile (· != d) l c (by simp [back])
    obtain rfl : c = d := by simpa using first
    exact ⟨rest, rfl⟩

theorem withoutFragment_clean (l : List Char) : ∀ c ∈ withoutFragment l, c ≠ '#' := by
  intro c hc
  simpa using List.mem_takeWhile_imp hc

end Cut

/-! ### Schemes -/

/-- The letters of ASCII. -/
def IsLetter (c : Char) : Prop := 'A' ≤ c ∧ c ≤ 'Z' ∨ 'a' ≤ c ∧ c ≤ 'z'

/-- The digits of ASCII. -/
def IsDigit (c : Char) : Prop := '0' ≤ c ∧ c ≤ '9'

/-- A scheme is a letter, followed by letters, digits, `+`, `-` and `.`. -/
def IsScheme : List Char → Prop
  | [] => False
  | c :: rest => IsLetter c ∧ ∀ d ∈ rest, IsLetter d ∨ IsDigit d ∨ d ∈ ['+', '-', '.']

/-- A text that starts with a scheme and a colon. -/
def HasScheme (l : List Char) : Prop := ∃ s rest, IsScheme s ∧ l = s ++ ':' :: rest

section Scheme

variable {s l rest : List Char} {c d : Char}

theorem isAlpha_iff : c.isAlpha = true ↔ IsLetter c := by
  have upper : c.isUpper = true ↔ 'A' ≤ c ∧ c ≤ 'Z' := decide_eq_true_iff
  have lower : c.isLower = true ↔ 'a' ≤ c ∧ c ≤ 'z' :=
    Bool.and_eq_true_iff.trans (and_congr decide_eq_true_iff decide_eq_true_iff)
  exact Bool.or_eq_true_iff.trans (or_congr upper lower)

theorem isSchemeChar_iff : isSchemeChar c = true ↔ IsLetter c ∨ IsDigit c ∨ c ∈ ['+', '-', '.'] := by
  have digit : c.isDigit = true ↔ IsDigit c :=
    Bool.and_eq_true_iff.trans (and_congr decide_eq_true_iff decide_eq_true_iff)
  have alphanum : c.isAlphanum = true ↔ IsLetter c ∨ IsDigit c :=
    Bool.or_eq_true_iff.trans (or_congr isAlpha_iff digit)
  simp [isSchemeChar, alphanum, or_assoc]

theorem isScheme_iff : isScheme s = true ↔ IsScheme s := by
  cases s with
  | nil => simp [isScheme, IsScheme]
  | cons c rest =>
    simp only [isScheme, IsScheme, Bool.and_eq_true, List.all_eq_true, isAlpha_iff, isSchemeChar_iff]

/-- No character of a scheme is one that ends a part. -/
theorem IsScheme.ne (hs : IsScheme s) (hd : isSchemeChar d = false) (hc : c ∈ s) : c ≠ d := by
  rintro rfl
  match s, hs with
  | _ :: rest, ⟨letter, more⟩ =>
    have valid : isSchemeChar c = true := by
      rw [isSchemeChar_iff]
      obtain rfl | hc := List.mem_cons.mp hc
      · exact .inl letter
      · exact more c hc
    cases hd.symm.trans valid

theorem IsScheme.takeWhile_append (hs : IsScheme s) : (s ++ ':' :: rest).takeWhile (· != ':') = s :=
  takeWhile_append_of_head (fun _ hc => bne_iff_ne.mpr (hs.ne rfl hc)) (by simp)

theorem IsScheme.dropWhile_append (hs : IsScheme s) :
    (s ++ ':' :: rest).dropWhile (· != ':') = ':' :: rest :=
  dropWhile_append_of_head (fun _ hc => bne_iff_ne.mpr (hs.ne rfl hc)) (by simp)

theorem afterScheme?_append (hs : IsScheme s) : afterScheme? (s ++ ':' :: rest) = some rest := by
  simp only [afterScheme?, hs.dropWhile_append, hs.takeWhile_append, isScheme_iff.mpr hs, if_true]

/-- The scheme ends at the first colon. -/
theorem hasScheme_iff : HasScheme l ↔ ':' ∈ l ∧ IsScheme (l.takeWhile (· != ':')) := by
  constructor
  · rintro ⟨s, rest, hs, rfl⟩
    exact ⟨by simp, hs.takeWhile_append.symm ▸ hs⟩
  · rintro ⟨colon, hs⟩
    obtain ⟨rest, back⟩ := dropWhile_of_mem colon
    exact ⟨_, rest, hs, by rw [← back, List.takeWhile_append_dropWhile]⟩

theorem afterScheme?_of_not_hasScheme (h : ¬ HasScheme l) : afterScheme? l = none := by
  unfold afterScheme?
  by_cases colon : ':' ∈ l
  · obtain ⟨rest, back⟩ := dropWhile_of_mem colon
    have invalid : ¬ isScheme (l.takeWhile (· != ':')) = true :=
      fun valid => h (hasScheme_iff.mpr ⟨colon, isScheme_iff.mp valid⟩)
    simp only [back, if_neg invalid]
  · have back : l.dropWhile (· != ':') = [] :=
      List.dropWhile_eq_nil_iff.mpr fun c hc => bne_iff_ne.mpr fun e => colon (e ▸ hc)
    rw [back]

/-- Neither a scheme nor the colon behind it contains a `#`, so it does not matter whether the scheme is looked for
before or after the fragment is cut off. -/
theorem hasScheme_withoutFragment : HasScheme (withoutFragment l) ↔ HasScheme l := by
  constructor
  · rintro ⟨s, rest, hs, cut⟩
    refine ⟨s, rest ++ l.dropWhile (· != '#'), hs, ?_⟩
    rw [← List.cons_append, ← List.append_assoc, ← cut, withoutFragment, List.takeWhile_append_dropWhile]
  · rintro ⟨s, rest, hs, rfl⟩
    refine ⟨s, withoutFragment rest, hs, ?_⟩
    unfold withoutFragment
    rw [List.takeWhile_append_of_pos fun c hc => bne_iff_ne.mpr (hs.ne rfl hc), List.takeWhile_cons_of_pos (by rfl)]

/-- The file part of a url without a scheme is the url up to its fragment. -/
theorem fileChars_of_not_hasScheme (h : ¬ HasScheme l) : fileChars l = withoutFragment l := by
  simp only [fileChars, afterScheme?_of_not_hasScheme (hasScheme_withoutFragment.not.mpr h)]

end Scheme

/-! ### Authority and file -/

/-- What stands between the scheme and the fragment of a url: an authority and the file behind it, or a file on its
own, which must not look like an authority. -/
@[ext]
structure Body where
  authority : Option String
  /-- The file with its query. -/
  file : String
  authority_clean : ∀ a ∈ authority, ∀ c ∈ a.toList, c ≠ '/' ∧ c ≠ '?' ∧ c ≠ '#'
  file_clean : ∀ c ∈ file.toList, c ≠ '#'
  file_behind : authority ≠ none → ∀ c ∈ file.toList.head?, c = '/' ∨ c = '?'
  file_alone : authority = none → ¬ ['/', '/'] <+: file.toList

namespace Body

/-- The authority behind its two slashes, or nothing. -/
def slashed (b : Body) : String := b.authority.elim "" ("//" ++ ·)

def text (b : Body) : String := b.slashed ++ b.file

section Text

variable (b : Body)

theorem toList_slashed_none (h : b.authority = none) : b.slashed.toList = [] := by
  simp [slashed, h]

theorem toList_slashed_some {a : String} (h : b.authority = some a) :
    b.slashed.toList = '/' :: '/' :: a.toList := by
  simp [slashed, h]

theorem toList_text : b.text.toList = b.slashed.toList ++ b.file.toList := by
  rw [text, String.toList_append]

theorem slashed_clean : ∀ c ∈ b.slashed.toList, c ≠ '?' ∧ c ≠ '#' := by
  intro c hc
  cases h : b.authority with
  | none => simp [b.toList_slashed_none h] at hc
  | some a =>
    simp only [b.toList_slashed_some h, List.mem_cons] at hc
    obtain rfl | rfl | hc := hc
    · decide
    · decide
    · exact (b.authority_clean a h c hc).2

theorem text_clean : ∀ c ∈ b.text.toList, c ≠ '#' := by
  intro c hc
  rw [toList_text, List.mem_append] at hc
  exact hc.elim (fun hc => (b.slashed_clean c hc).2) (b.file_clean c)

/-- The authority ends where the file begins. -/
theorem withoutAuthority_text : withoutAuthority b.text.toList = b.file.toList := by
  rw [toList_text]
  cases h : b.authority with
  | none =>
    have alone := b.file_alone h
    rw [b.toList_slashed_none h, List.nil_append]
    unfold withoutAuthority
    split
    · -- a file on its own does not start with two slashes
      rename_i rest e
      exact absurd ⟨rest, e.symm⟩ alone
    · rfl
  | some a =>
    rw [b.toList_slashed_some h]
    refine dropWhile_append_of_head (fun c hc => ?_) fun c hc => ?_
    · obtain ⟨slash, query, -⟩ := b.authority_clean a h c hc
      simp [slash, query]
    · obtain rfl | rfl := b.file_behind (by simp [h]) c hc <;> rfl

end Text

variable {b b' : Body} {l : List Char}

theorem authority_eq_of_slashed_eq (h : b.slashed.toList = b'.slashed.toList) : b.authority = b'.authority := by
  cases hb : b.authority with
  | none =>
    rw [b.toList_slashed_none hb] at h
    cases hb' : b'.authority with
    | none => rfl
    | some a' => simp [b'.toList_slashed_some hb'] at h
  | some a =>
    rw [b.toList_slashed_some hb] at h
    cases hb' : b'.authority with
    | none => simp [b'.toList_slashed_none hb'] at h
    | some a' =>
      rw [b'.toList_slashed_some hb', List.cons_inj_right, List.cons_inj_right, String.toList_inj] at h
      rw [h]

/-- A body is read back from its text: the file is what is left without the authority. -/
theorem eq_of_text_eq (h : b.text.toList = b'.text.toList) : b = b' := by
  have file : b.file.toList = b'.file.toList := by
    rw [← withoutAuthority_text, ← withoutAuthority_text, h]
  have slashed : b.slashed.toList = b'.slashed.toList := by
    rw [toList_text, toList_text, file] at h
    exact List.append_cancel_right h
  exact Body.ext (authority_eq_of_slashed_eq slashed) (String.toList_inj.mp file)

/-- Behind two slashes there is an authority, which ends at the next `/` or `?`. -/
theorem exists_behind (clean : ∀ c ∈ l, c ≠ '#') : ∃ b : Body, b.text.toList = '/' :: '/' :: l := by
  let inner (c : Char) : Bool := c != '/' && c != '?'
  have whole : l.takeWhile inner ++ l.dropWhile inner = l := List.takeWhile_append_dropWhile
  refine ⟨{
    authority := some (.ofList (l.takeWhile inner))
    file := .ofList (l.dropWhile inner)
    authority_clean := ?_
    file_clean := ?_
    file_behind := ?_
    file_alone := nofun }, ?_⟩
  · intro a ha c hc
    obtain rfl := Option.some.inj ha
    rw [String.toList_ofList] at hc
    have kept : inner c = true := List.mem_takeWhile_imp hc
    simp only [inner, Bool.and_eq_true, bne_iff_ne] at kept
    exact ⟨kept.1, kept.2, clean c ((List.takeWhile_prefix inner).subset hc)⟩
  · intro c hc
    rw [String.toList_ofList] at hc
    exact clean c ((List.dropWhile_suffix inner).subset hc)
  · intro _ c hc
    rw [String.toList_ofList] at hc
    simpa [inner, or_iff_not_imp_left] using head_dropWhile inner l c hc
  · rw [toList_text, toList_slashed_some _ rfl]
    simp [whole]

theorem exists_alone (clean : ∀ c ∈ l, c ≠ '#') (alone : ¬ ['/', '/'] <+: l) : ∃ b : Body, b.text.toList = l := by
  refine ⟨{
    authority := none
    file := .ofList l
    authority_clean := nofun
    file_clean := by simpa using clean
    file_behind := fun h => absurd rfl h
    file_alone := fun _ => by simpa using alone }, ?_⟩
  rw [toList_text, toList_slashed_none _ rfl, List.nil_append, String.toList_ofList]

theorem exists_text (clean : ∀ c ∈ l, c ≠ '#') : ∃ b : Body, b.text.toList = l := by
  by_cases slashes : ['/', '/'] <+: l
  · obtain ⟨rest, rfl⟩ := slashes
    exact exists_behind fun c hc => clean c (List.mem_append_right _ hc)
  · exact exists_alone clean slashes

end Body

/-! ### Parts -/

/-- The parts of a url with a scheme. -/
@[ext]
structure Parts where
  scheme : String
  body : Body
  /-- The fragment with its `#`, or nothing. -/
  fragment : String
  isScheme : IsScheme scheme.toList
  fragment_head : ∀ c ∈ fragment.toList.head?, c = '#'

namespace Parts

/-- All that stands in front of the file. -/
def front (p : Parts) : String := p.scheme ++ ":" ++ p.body.slashed

/-- The url that has these parts. -/
def url (p : Parts) : String := p.front ++ p.body.file ++ p.fragment

section Url

variable (p : Parts)

theorem toList_url : p.url.toList = p.scheme.toList ++ ':' :: (p.body.text.toList ++ p.fragment.toList) := by
  simp [url, front, Body.toList_text]

/-- Queries and fragments only begin behind the front. -/
theorem front_clean : ∀ c ∈ p.front.toList, c ≠ '?' ∧ c ≠ '#' := by
  intro c hc
  simp only [front, String.toList_append, List.mem_append] at hc
  obtain (hc | hc) | hc := hc
  · exact ⟨p.isScheme.ne rfl hc, p.isScheme.ne rfl hc⟩
  · obtain rfl : c = ':' := by simpa using hc
    decide
  · exact p.body.slashed_clean c hc

theorem takeWhile_scheme : p.url.toList.takeWhile (· != ':') = p.scheme.toList := by
  rw [toList_url, p.isScheme.takeWhile_append]

theorem hasScheme_url : HasScheme p.url.toList :=
  ⟨_, _, p.isScheme, p.toList_url⟩

theorem withoutFragment_url : withoutFragment p.url.toList = p.scheme.toList ++ ':' :: p.body.text.toList := by
  rw [toList_url, ← List.cons_append, ← List.append_assoc]
  refine takeWhile_append_of_head (fun c hc => ?_) (by simpa using p.fragment_head)
  rw [bne_iff_ne]
  obtain hc | hc := List.mem_append.mp hc
  · exact p.isScheme.ne rfl hc
  · obtain rfl | hc := List.mem_cons.mp hc
    · decide
    · exact p.body.text_clean c hc

/-- The file part of a url is the file in its body. -/
theorem file_url : Url.file p.url = p.body.file := by
  rw [← String.toList_inj]
  simp only [Url.file, String.toList_ofList, fileChars, withoutFragment_url, afterScheme?_append p.isScheme,
    Body.withoutAuthority_text]

end Url

/-- A url has its parts in one way only. -/
theorem eq_of_url_eq {p r : Parts} (h : p.url = r.url) : p = r := by
  have scheme : p.scheme = r.scheme := by
    rw [← String.toList_inj, ← takeWhile_scheme, ← takeWhile_scheme, h]
  have body : p.body = r.body := by
    -- without the fragments the bodies are what follows the scheme, and the schemes are the same
    have cut := congrArg (withoutFragment ·.toList) h
    simp only [withoutFragment_url, scheme] at cut
    exact Body.eq_of_text_eq (List.tail_eq_of_cons_eq (List.append_cancel_left cut))
  have fragment : p.fragment = r.fragment := by
    rw [← String.toList_inj, toList_url, toList_url, scheme, body] at h
    exact String.toList_inj.mp (by simpa using h)
  exact Parts.ext scheme body fragment

/-- A url has parts if a scheme and a colon stand in front of its first `#`. -/
theorem exists_url {url : String} (h : HasScheme (withoutFragment url.toList)) : ∃ p : Parts, p.url = url := by
  obtain ⟨s, rest, hs, cut⟩ := h
  let fragment := url.toList.dropWhile (· != '#')
  have whole : s ++ ':' :: rest ++ fragment = url.toList := by
    rw [← cut]
    exact List.takeWhile_append_dropWhile
  obtain ⟨body, rfl⟩ : ∃ b : Body, b.text.toList = rest :=
    Body.exists_text fun c hc => withoutFragment_clean url.toList c (by simp [cut, hc])
  refine ⟨{
    scheme := .ofList s
    body := body
    fragment := .ofList fragment
    isScheme := by simpa using hs
    fragment_head := by simpa using head_dropWhile (· != '#') url.toList }, ?_⟩
  exact String.toList_inj.mp ((toList_url _).trans (by simpa using whole))

theorem existsUnique_url_iff {url : String} :
    (∃! p : Parts, p.url = url) ↔ HasScheme (withoutFragment url.toList) := by
  constructor
  · rintro ⟨p, rfl, -⟩
    exact hasScheme_withoutFragment.mpr p.hasScheme_url
  · intro h
    obtain ⟨p, rfl⟩ := exists_url h
    exact ⟨p, rfl, fun r hr => eq_of_url_eq hr⟩

end Parts

theorem withoutAuthority_suffix (l : List Char) : withoutAuthority l <:+ l := by
  unfold withoutAuthority
  split
  · rename_i rest
    exact (List.dropWhile_suffix _).trans (List.suffix_append ['/', '/'] rest)
  · exact List.suffix_refl _

/-- Whatever is cut off a url is cut off at its ends. -/
theorem fileChars_infix (l : List Char) : fileChars l <:+: withoutFragment l := by
  by_cases h : HasScheme (withoutFragment l)
  · obtain ⟨s, rest, hs, cut⟩ := h
    simp only [fileChars, cut, afterScheme?_append hs]
    have behind : rest <:+ s ++ ':' :: rest := (List.suffix_cons ':' rest).trans (List.suffix_append s _)
    exact ((withoutAuthority_suffix rest).trans behind).isInfix
  · have whole : fileChars l = withoutFragment l :=
      fileChars_of_not_hasScheme (hasScheme_withoutFragment.not.mp h)
    exact whole ▸ List.infix_refl _

end Url

namespace Position

open Url SymbolTable

/-- Every text is the url of some position. -/
theorem exists_urlText (url : String) :
    ∃ (t : SymbolTable) (pos : Position), t.Reachable ∧ pos.urlText t = url := by
  obtain ⟨n, t, e⟩ : ∃ n t, SymbolTable.new.intern url = .ok (n, t) := by
    have room : ∀ i : Fin Symbol.shardCount, (SymbolTable.new.shards.get i).size < Symbol.slotCount := by
      decide +kernel
    cases known : SymbolTable.new.find? url with
    | none => exact ⟨_, _, intern_of_none known (room (shardOf url))⟩
    | some n => exact ⟨n, _, intern_of_some known⟩
  exact ⟨t, ofUrl n, .intern .new e, text_of_find? (addressable_new.intern e) (find?_of_intern e)⟩

theorem toList_fileText (t : SymbolTable) (pos : Position) :
    (pos.fileText t).toList = fileChars (pos.urlText t).toList :=
  String.toList_ofList

/-- **The file part of a url with a scheme** is what stands between the front and the fragment: the scheme that ends
at the first colon and the authority are left out, the query is not.  Each url has such parts in one way, just if
a scheme and a colon come before its first `#`. -/
theorem fileText_parts (t : SymbolTable) (pos : Position) :
    (∀ p : Parts, p.url = pos.urlText t →
      pos.fileText t = p.body.file ∧ p.scheme.toList = (pos.urlText t).toList.takeWhile (· != ':') ∧
        ∀ c ∈ p.front.toList, c ≠ '?') ∧
      ((∃! p : Parts, p.url = pos.urlText t) ↔
        ∃ s rest, IsScheme s ∧ (pos.urlText t).toList.takeWhile (· != '#') = s ++ ':' :: rest) ∧
      (∀ c ∈ (pos.fileText t).toList, c ≠ '#') ∧
      (pos.fileText t).toList <:+: (pos.urlText t).toList := by
  have piece : fileChars (pos.urlText t).toList <:+: withoutFragment (pos.urlText t).toList :=
    fileChars_infix _
  refine ⟨fun p hp => ?_, Parts.existsUnique_url_iff, ?_, ?_⟩
  · rw [fileText, ← hp]
    exact ⟨p.file_url, p.takeWhile_scheme.symm, fun c hc => (p.front_clean c hc).1⟩
  · intro c hc
    rw [toList_fileText] at hc
    exact withoutFragment_clean _ c (piece.subset hc)
  · rw [toList_fileText]
    exact piece.trans (List.takeWhile_prefix _).isInfix

/-- A url in a url, with a port, a query and a fragment: only what belongs to the outer one goes. -/
theorem fileText_parts_nested :
    ∃ (t : SymbolTable) (pos : Position), t.Reachable ∧
      pos.urlText t = "jar://é:80/file://lib:1/A?v=/#a?b:c" ∧ pos.fileText t = "/file://lib:1/A?v=/" := by
  let p : Parts := {
    scheme := "jar"
    body := {
      authority := some "é:80"
      file := "/file://lib:1/A?v=/"
      authority_clean := by simp
      file_clean := by simp
      file_behind := by simp
      file_alone := nofun }
    fragment := "#a?b:c"
    isScheme := isScheme_iff.mp (by decide)
    fragment_head := by simp }
  obtain ⟨t, pos, reachable, text⟩ := exists_urlText p.url
  obtain ⟨kept, -⟩ := fileText_parts t pos
  exact ⟨t, pos, reachable, text, (kept p text.symm).1⟩

/-- A plain path may contain a `#`, and what follows it is lost. -/
theorem schemeless_not_unchanged :
    ¬ ∀ (t : SymbolTable) (pos : Position), t.Reachable →
      (':' ∈ (pos.urlText t).toList → ¬ IsScheme ((pos.urlText t).toList.takeWhile (· != ':'))) →
        pos.fileText t = pos.urlText t := by
  intro law
  obtain ⟨t, pos, reachable, text⟩ := exists_urlText "src/Leaf#1.java"
  have plain : ':' ∉ (pos.urlText t).toList := by
    rw [text]
    decide
  have whole := law t pos reachable fun colon => absurd colon plain
  rw [fileText, text] at whole
  exact absurd whole (by decide +kernel)

/-- **The file part of a url without a scheme** is the url up to its first `#`; so it is the whole url if and only if
there is no `#` in it. -/
theorem fileText_schemeless (t : SymbolTable) (pos : Position)
    (h : ':' ∈ (pos.urlText t).toList → ¬ IsScheme ((pos.urlText t).toList.takeWhile (· != ':'))) :
    (pos.fileText t).toList = (pos.urlText t).toList.takeWhile (· != '#') ∧
      (pos.fileText t = pos.urlText t ↔ '#' ∉ (pos.urlText t).toList) := by
  have without : ¬ HasScheme (pos.urlText t).toList := fun there =>
    h (hasScheme_iff.mp there).1 (hasScheme_iff.mp there).2
  have cut : (pos.fileText t).toList = (pos.urlText t).toList.takeWhile (· != '#') := by
    rw [toList_fileText, fileChars_of_not_hasScheme without, withoutFragment]
  refine ⟨cut, ?_⟩
  rw [← String.toList_inj, cut, List.takeWhile_eq_self_iff]
  constructor
  · intro clean hash
    have differs := clean '#' hash
    simp at differs
  · intro clean c hc
    exact bne_iff_ne.mpr fun e => clean (e ▸ hc)

/-- A scheme does not start with a digit. -/
theorem fileText_schemeless_digit :
    ∃ (t : SymbolTable) (pos : Position), t.Reachable ∧
      pos.urlText t = "1:src//Leaf?.java" ∧ pos.fileText t = "1:src//Leaf?.java" := by
  obtain ⟨t, pos, reachable, text⟩ := exists_urlText "1:src//Leaf?.java"
  have digit : ¬ IsScheme ("1:src//Leaf?.java".toList.takeWhile (· != ':')) :=
    isScheme_iff.not.mp (by decide)
  obtain ⟨-, whole⟩ := fileText_schemeless t pos fun _ => text ▸ digit
  have clean : '#' ∉ (pos.urlText t).toList := by
    rw [text]
    decide
  exact ⟨t, pos, reachable, text, (whole.mpr clean).trans text⟩

end Position

end Lineage
