import ActionBook.Proofs.Text.Ascii
import ActionBook.Proofs.Text.Cutting
import ActionBook.Url.Parser
import Mathlib.Data.List.TakeWhile

/-!
# `Url.Reading`: what an address has been read from

The text of an address is taken apart from left to right, and each part has been read from a stretch of
it: the scheme from what comes before the first colon (`cutScheme?_eq_some_iff`), host and port from what
comes after the last `@` of the authority (`of_readPlace_eq_ok`), the rest from what follows the
authority (`readHosted_eq_ok_iff`).
-/

namespace ActionBook.Url

variable {text front more rest left scheme : List Char} {c : Char} {u : Url} {special followed : Bool}
  {user : List Char × Option (List Char)} {host : Host} {port : Option Nat}
  {place : (List Char × Option (List Char)) × Host × Option Nat × List Char}

/-! ## Controls and blanks -/

/-- Whether a character is cut off at the ends of an address. -/
def isEdge (c : Char) : Bool := c.toNat ≤ 0x20

/-- Whether a character stays wherever it is. -/
def isKept (c : Char) : Bool := !(c = '\t' || c = '\n' || c = '\r')

/-- The text from its first character that is no edge, without tabs and line breaks. -/
def cleanedFront (text : List Char) : List Char := (text.dropWhile isEdge).filter isKept

/-- The text up to its last character that is no edge, without tabs and line breaks. -/
def cleanedBack (text : List Char) : List Char :=
  (text.reverse.dropWhile isEdge).reverse.filter isKept

/-- What is so for each control and for the space. -/
theorem of_isEdge {p : Char → Bool} (h : isEdge c = true)
    (hall : ∀ n < 0x21, p (Char.ofNat n) = true) : p c = true :=
  Text.of_toNat_lt (p := (p · = true)) (Nat.lt_succ_of_le (of_decide_eq_true h)) hall

/-- Only controls are left out everywhere. -/
theorem isKept_of_not_isEdge (h : isEdge c = false) : isKept c = true := by
  rw [isKept, Bool.not_eq_true', Bool.eq_false_iff]
  intro hspace
  simp only [Bool.or_eq_true, decide_eq_true_eq] at hspace
  rcases hspace with (rfl | rfl) | rfl
  all_goals cases h

theorem cleaned_slash (front more : List Char) :
    cleaned (front ++ '/' :: more) = cleanedFront front ++ '/' :: cleanedBack more := by
  have hslash : isEdge '/' = false := by decide
  have hkept : isKept '/' = true := by decide
  change (((front ++ '/' :: more).dropWhile isEdge).reverse.dropWhile isEdge).reverse.filter isKept = _
  rw [Text.dropWhile_append_stop hslash, List.reverse_append, List.reverse_cons, List.append_assoc,
    List.singleton_append, Text.dropWhile_append_stop hslash, List.reverse_append, List.reverse_cons,
    List.reverse_reverse, List.append_assoc, List.singleton_append, List.filter_append,
    List.filter_cons_of_pos hkept]
  rfl

/-- All that is cut off at the end is controls and blanks. -/
theorem exists_edges (text : List Char) :
    ∃ edges, (∀ c ∈ edges, isEdge c = true) ∧ cleanedFront text = cleaned text ++ edges := by
  obtain ⟨others, hothers, htext⟩ := Text.exists_reverse_dropWhile isEdge (text.dropWhile isEdge)
  refine ⟨others.filter isKept, fun c hc => hothers c (List.mem_filter.1 hc).1, ?_⟩
  rw [cleanedFront, ← htext, List.filter_append]
  rfl

/-! ## Schemes -/

theorem cutScheme?_eq_some_iff :
    cutScheme? text = some (scheme, rest) ↔
      ∃ first others, text = first :: others ++ ':' :: rest ∧
        (∀ c ∈ first :: others, isSchemeChar c = true) ∧ first.isAlpha = true ∧
        scheme = (first :: others).map Char.toLower := by
  constructor
  · intro h
    unfold cutScheme? at h
    split at h
    next first others rest' htake hdrop =>
      split at h
      next halpha =>
        cases h
        refine ⟨first, others, ?_, fun c hc => ?_, halpha, rfl⟩
        · rw [← htake, ← hdrop, List.takeWhile_append_dropWhile]
        · rw [← htake] at hc
          exact List.mem_takeWhile_imp hc
      next => cases h
    next => cases h
  · rintro ⟨first, others, rfl, hall, halpha, rfl⟩
    have hcolon : isSchemeChar ':' = false := by decide
    have htake : (first :: others ++ ':' :: rest).takeWhile isSchemeChar = first :: others := by
      rw [List.takeWhile_append_of_pos hall, List.takeWhile_cons_of_neg (by simp [hcolon]),
        List.append_nil]
    have hdrop : (first :: others ++ ':' :: rest).dropWhile isSchemeChar = ':' :: rest := by
      rw [List.dropWhile_append_of_pos hall, List.dropWhile_cons_of_neg (by simp [hcolon])]
    unfold cutScheme?
    simp only [htake, hdrop, halpha, if_true]

/-- A longer text has the same scheme. -/
theorem cutScheme?_append (h : cutScheme? text = some (scheme, rest)) (more : List Char) :
    cutScheme? (text ++ more) = some (scheme, rest ++ more) := by
  obtain ⟨first, others, rfl, hall, halpha, hscheme⟩ := cutScheme?_eq_some_iff.1 h
  exact cutScheme?_eq_some_iff.2 ⟨first, others, by simp, hall, halpha, hscheme⟩

/-- The colon after the scheme stands before any slash. -/
theorem exists_cutScheme?_of_slash (h : cutScheme? (front ++ '/' :: more) = some (scheme, left)) :
    ∃ rest, cutScheme? front = some (scheme, rest) ∧ left = rest ++ '/' :: more := by
  obtain ⟨first, others, heq, hall, halpha, hscheme⟩ := cutScheme?_eq_some_iff.1 h
  rcases List.append_eq_append_iff.1 heq with ⟨w, hname, hmore⟩ | ⟨w, hfront, hleft⟩
  · -- the slash would be the colon, or part of the scheme
    cases w with
    | nil => cases hmore
    | cons d w =>
      cases hmore
      have hslash := hall '/' (by rw [hname]; simp)
      exact absurd hslash (by decide)
  · cases w with
    | nil => cases hleft
    | cons d w =>
      cases hleft
      exact ⟨w, cutScheme?_eq_some_iff.2 ⟨first, others, hfront, hall, halpha, hscheme⟩, rfl⟩

/-! ## Authorities -/

theorem cutUser?_eq_some_iff :
    cutUser? text = some (front, rest) ↔ text = front ++ '@' :: rest ∧ '@' ∉ rest := by
  rw [cutUser?, Option.map_eq_some_iff]
  constructor
  · rintro ⟨⟨host, user⟩, hcut, heq⟩
    cases heq
    obtain ⟨hreverse, hnot⟩ := Text.cutAt_eq_some_iff.1 hcut
    refine ⟨?_, by simpa using hnot⟩
    have htext := congrArg List.reverse hreverse
    simpa using htext
  · rintro ⟨rfl, hnot⟩
    refine ⟨(rest.reverse, front.reverse), Text.cutAt_eq_some_iff.2 ⟨by simp, by simpa using hnot⟩, ?_⟩
    simp

theorem cutHost_append (inBrackets : Bool) (text : List Char) :
    (cutHost inBrackets text).1 ++ (cutHost inBrackets text).2 = text := by
  induction text generalizing inBrackets with
  | nil => rfl
  | cons c text ih =>
    rw [cutHost]
    split
    · rfl
    · rw [List.cons_append, ih]

theorem cutHost_eq_nil_or_colon (inBrackets : Bool) (text : List Char) :
    (cutHost inBrackets text).2 = [] ∨ ∃ digits, (cutHost inBrackets text).2 = ':' :: digits := by
  induction text generalizing inBrackets with
  | nil => exact .inl rfl
  | cons c text ih =>
    rw [cutHost]
    split
    next hcolon => exact .inr ⟨text, by rw [hcolon.1]⟩
    next => exact ih _

/-- A host is a number, or a name that is not empty and has nothing in it that is forbidden. -/
theorem of_ofText_eq_ok [Idna] (h : Host.ofText text = .ok host) :
    (∃ name, host = .name name ∧ name ≠ [] ∧ name.any Host.isForbidden = false) ∨
      (∃ n, host = .octets n) ∨ ∃ numbers, host = .pieces numbers := by
  unfold Host.ofText at h
  split at h
  · cases h
  · unfold Host.ofBracketed at h
    split at h
    · cases h
      exact .inr (.inr ⟨_, rfl⟩)
    · cases h
  · split at h
    · cases h
    · split at h
      · cases h
      · split at h
        · cases h
        next name _ =>
          unfold Host.ofAscii at h
          split at h
          · cases h
          next hsome =>
            split at h
            · cases h
            next hallowed =>
              split at h
              · split at h
                · cases h
                  exact .inr (.inl ⟨_, rfl⟩)
                · cases h
              · cases h
                rw [List.isEmpty_iff] at hsome
                exact .inl ⟨name, rfl, hsome, eq_false_of_ne_true hallowed⟩

theorem write_ne_nil_of_ofText [Idna] (h : Host.ofText text = .ok host) : host.write ≠ [] := by
  rcases of_ofText_eq_ok h with ⟨name, rfl, hsome, -⟩ | ⟨n, rfl⟩ | ⟨numbers, rfl⟩
  · exact hsome
  · simp [Host.write, Host.writeOctets]
  · simp [Host.write]

/-- Host and port, after a user that has been read. -/
def readPlace [Idna] (scheme : List Char) (user : List Char × Option (List Char)) (text : List Char) :
    Except ParseError ((List Char × Option (List Char)) × Host × Option Nat × List Char) := do
  let (hostText, rest) := cutHost false text
  let host ← if isSpecial scheme then Host.ofText hostText else Host.ofTextAsIs hostText
  let (port, left) ←
    match rest with
    | ':' :: rest =>
      if host.isEmpty then throw .emptyHost
      else pure (← readPort scheme (rest.takeWhile (· ≠ '\\')), rest.dropWhile (· ≠ '\\'))
    | rest => pure (none, rest)
  if host.isEmpty ∧ user ≠ ([], none) then throw .emptyHost
  return (user, host, port, left)

theorem readAuthority_eq [Idna] (scheme text : List Char) (followed : Bool) :
    readAuthority scheme text followed =
      match cutUser? text with
      | none => readPlace scheme ([], none) text
      | some ([], []) =>
        if followed then .error .emptyHost else readPlace scheme ([], none) []
      | some (user, rest) => readPlace scheme (readUser user) rest := by
  unfold readAuthority
  rcases cutUser? text with _ | ⟨_ | ⟨c, user⟩, _ | ⟨d, rest⟩⟩
  case some.nil.nil => cases followed <;> rfl
  all_goals rfl

theorem exists_readPlace_of_readAuthority [Idna]
    (h : readAuthority scheme text followed = .ok place) :
    ∃ user rest, rest ⊆ text ∧ readPlace scheme user rest = .ok place := by
  rw [readAuthority_eq] at h
  split at h
  next => exact ⟨_, _, List.Subset.refl _, h⟩
  next =>
    split at h
    · cases h
    · exact ⟨_, _, List.nil_subset _, h⟩
  next user rest _ hcut =>
    refine ⟨_, _, ?_, h⟩
    rw [(cutUser?_eq_some_iff.1 hcut).1]
    exact List.subset_append_of_subset_right _ (List.subset_cons_self _ _)

/-- Under a special scheme both host and port have to be right. What is left comes from the port. -/
theorem of_readPlace_eq_ok [Idna] (hspecial : isSpecial scheme = true)
    {user' : List Char × Option (List Char)}
    (h : readPlace scheme user text = .ok (user', host, port, left)) :
    Host.ofText (cutHost false text).1 = .ok host ∧
      ((cutHost false text).2 = [] ∧ left = [] ∨
        ∃ digits, (cutHost false text).2 = ':' :: digits ∧
          readPort scheme (digits.takeWhile (· ≠ '\\')) = .ok port ∧
          left = digits.dropWhile (· ≠ '\\')) := by
  unfold readPlace at h
  simp only [hspecial, bind, Except.bind, pure, Except.pure, throw, throwThe, MonadExceptOf.throw,
    if_true] at h
  split at h
  · cases h
  next host' hhost =>
    split at h
    next digits hdigits =>
      split at h
      · cases h
      · split at h
        · cases h
        next port' hport =>
          split at h
          · cases h
          · cases h
            exact ⟨hhost, .inr ⟨digits, hdigits, hport, rfl⟩⟩
    next hnone =>
      split at h
      · cases h
      · cases h
        have hnil := (cutHost_eq_nil_or_colon false text).resolve_right fun ⟨digits, hdigits⟩ =>
          hnone digits hdigits
        exact ⟨hhost, .inl ⟨hnil, hnil⟩⟩

/-- Nothing is left over before a path that does not begin within the authority. -/
theorem left_eq_nil_of_readAuthority [Idna] (hspecial : isSpecial scheme = true) (hslash : '\\' ∉ text)
    (h : readAuthority scheme text followed = .ok (user, host, port, left)) : left = [] := by
  obtain ⟨user', rest, hrest, hplace⟩ := exists_readPlace_of_readAuthority h
  obtain ⟨-, ⟨-, hleft⟩ | ⟨digits, hdigits, -, rfl⟩⟩ := of_readPlace_eq_ok hspecial hplace
  · exact hleft
  · refine List.dropWhile_eq_nil_iff.2 fun c hc => decide_eq_true (ne_of_mem_of_not_mem (hrest ?_) hslash)
    rw [← cutHost_append false rest, hdigits]
    exact List.mem_append_right _ (List.mem_cons_of_mem _ hc)

/-! ## Addresses -/

/-- The text of an authority, and what follows it. -/
def cutAuthority (special : Bool) (text : List Char) : List Char × List Char :=
  (text.takeWhile (!endsAuthority special ·), text.dropWhile (!endsAuthority special ·))

/-- What an address with a host is made of. -/
theorem readHosted_eq_ok_iff [Idna] :
    readHosted scheme text = .ok u ↔
      ∃ user host port left,
        readAuthority scheme (cutAuthority (isSpecial scheme) text).1
            (!(cutAuthority (isSpecial scheme) text).2.isEmpty) = .ok (user, host, port, left) ∧
          u = let tail := cutTail (isSpecial scheme)
                (left ++ (cutAuthority (isSpecial scheme) text).2)
              { scheme, username := user.1, password := user.2, host := some host, port,
                path := readPath (isSpecial scheme) tail.1, query := tail.2.1,
                fragment := tail.2.2 } := by
  unfold readHosted
  simp only [bind, Except.bind, pure, Except.pure, cutAuthority]
  constructor
  · intro h
    split at h
    · cases h
    next place hplace =>
      obtain ⟨⟨username, password⟩, host, port, left⟩ := place
      cases h
      exact ⟨_, _, _, _, hplace, rfl⟩
  · rintro ⟨⟨username, password⟩, host, port, left, hplace, rfl⟩
    rw [hplace]

theorem cutAuthority_slash (special : Bool) (front more : List Char) :
    cutAuthority special (front ++ '/' :: more) =
      ((cutAuthority special front).1, (cutAuthority special front).2 ++ '/' :: more) := by
  have hslash : (!endsAuthority special '/') = false := rfl
  rw [cutAuthority, Text.takeWhile_append_stop hslash, Text.dropWhile_append_stop hslash]
  rfl

/-- What follows an authority begins with a sign that ends it. -/
theorem endsAuthority_of_head? (special : Bool) (text : List Char) :
    ∀ c ∈ (cutAuthority special text).2.head?, endsAuthority special c = true := by
  intro c hc
  simpa using Text.head?_dropWhile_eq_false (!endsAuthority special ·) text c hc

/-- An authority that something follows has ended. -/
theorem cutAuthority_append (h : (cutAuthority special front).2 ≠ []) (more : List Char) :
    cutAuthority special (front ++ more) =
      ((cutAuthority special front).1, (cutAuthority special front).2 ++ more) := by
  have hlength : (front.takeWhile (!endsAuthority special ·)).length ≠ front.length := by
    intro heq
    have hall := (List.takeWhile_prefix (!endsAuthority special ·)).eq_of_length heq
    exact h (List.dropWhile_eq_nil_iff.2 (List.takeWhile_eq_self_iff.1 hall))
  exact Prod.ext (List.takeWhile_append.trans (if_neg hlength))
    (List.dropWhile_append.trans (if_neg (mt List.isEmpty_iff.1 h)))

/-- An authority that nothing follows is all there is. -/
theorem not_endsAuthority_of_mem (h : (cutAuthority special front).2 = []) :
    ∀ c ∈ front, (!endsAuthority special c) = true :=
  List.dropWhile_eq_nil_iff.1 h

theorem cutAuthority_of_forall (h : ∀ c ∈ front, (!endsAuthority special c) = true) :
    (cutAuthority special front).1 = front :=
  List.takeWhile_eq_self_iff.2 h

theorem scheme_of_readHosted [Idna] (h : readHosted scheme text = .ok u) : u.scheme = scheme := by
  obtain ⟨user, host, port, left, -, rfl⟩ := readHosted_eq_ok_iff.1 h
  rfl

/-- The text after the slashes that a scheme may be followed by. -/
def afterSlashes (text : List Char) : List Char := text.dropWhile fun c => c = '/' || c = '\\'

theorem afterSlashes_append (h : afterSlashes text ≠ []) (more : List Char) :
    afterSlashes (text ++ more) = afterSlashes text ++ more :=
  List.dropWhile_append.trans (if_neg (mt List.isEmpty_iff.1 h))

theorem scheme_of_readLocal [Idna] (h : readLocal text = .ok u) : u.scheme = fileScheme := by
  unfold readLocal at h
  simp only [bind, Except.bind, pure, Except.pure] at h
  -- all that can go wrong is the host, and the scheme is the same in all other cases
  repeat' split at h
  all_goals cases h <;> rfl

theorem parse_eq_readHosted [Idna] (hcut : cutScheme? (cleaned text) = some (scheme, rest))
    (hspecial : isSpecial scheme = true) (hfile : scheme ≠ fileScheme) :
    parse text = readHosted scheme (afterSlashes rest) := by
  unfold parse
  rw [hcut]
  simp only [hspecial, if_neg hfile, if_true]
  rfl

theorem exists_cutScheme?_of_parse [Idna] (h : parse text = .ok u) (hspecial : isSpecial u.scheme = true)
    (hfile : u.scheme ≠ fileScheme) :
    ∃ rest, cutScheme? (cleaned text) = some (u.scheme, rest) ∧
      readHosted u.scheme (afterSlashes rest) = .ok u := by
  have hparse := h
  unfold parse at h
  split at h
  · cases h
  next scheme rest hcut =>
    have hscheme : u.scheme = scheme := by
      split at h
      · exact absurd (scheme_of_readLocal h) hfile
      · split at h
        · exact scheme_of_readHosted h
        · split at h
          · exact scheme_of_readHosted h
          · cases h
            rfl
    rw [← hscheme] at hcut
    rw [parse_eq_readHosted hcut hspecial hfile] at hparse
    exact ⟨rest, hcut, hparse⟩

/-- Under the schemes that are about hosts, an address has one. -/
theorem writeHost_ne_nil [Idna] (h : parse text = .ok u) (hspecial : isSpecial u.scheme = true)
    (hfile : u.scheme ≠ fileScheme) : u.writeHost ≠ [] := by
  obtain ⟨rest, -, hhosted⟩ := exists_cutScheme?_of_parse h hspecial hfile
  obtain ⟨user, host, port, left, hread, hu⟩ := readHosted_eq_ok_iff.1 hhosted
  obtain ⟨user', rest, -, hplace⟩ := exists_readPlace_of_readAuthority hread
  have hhost : u.host = some host := by rw [hu]
  simp [writeHost, hhost, write_ne_nil_of_ofText (of_readPlace_eq_ok hspecial hplace).1]

end ActionBook.Url
