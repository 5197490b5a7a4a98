import ActionBook.Proofs.Text.Decoding
import ActionBook.Proofs.Text.Digits
import ActionBook.Proofs.Url.Reading

/-!
# `Url.Authority`: where an address leads

Scheme, user, host and port of an address are read from the front of its text, up to the first sign that
ends the authority. So a longer text leads to the same place (`SameAuthority`) if what has been added
begins with a slash. What stands between the end of a shorter text and that slash could only be controls
and blanks that had been cut off before, and an authority that ends with one of these is refused
(`readAuthority_ne_ok`).
-/

namespace ActionBook.Url

variable {text front more rest left scheme : List Char} {c : Char} {u v : Url} {followed : Bool}
  {user : List Char × Option (List Char)} {host : Host} {port : Option Nat}
  {place : (List Char × Option (List Char)) × Host × Option Nat × List Char}

/-! ## Hosts -/

/-- An octet that has no part in an escape stays. -/
theorem mem_unescaped {octets : Text.Octets} {b : UInt8} (hb : b ∈ octets) (hsign : b ≠ 0x25)
    (hdigit : Text.digitValue? (Char.ofNat b.toNat) = none) : b ∈ unescaped octets := by
  induction octets using unescaped.induct with
  | case1 a d rest high low hlow hhigh ih =>
    rw [unescaped]
    simp only [hhigh, hlow]
    have hrest : b ∈ rest := by
      rcases List.mem_cons.1 hb with rfl | hb
      · exact absurd rfl hsign
      · rcases List.mem_cons.1 hb with rfl | hb
        · rw [hdigit] at hhigh
          cases hhigh
        · rcases List.mem_cons.1 hb with rfl | hb
          · rw [hdigit] at hlow
            cases hlow
          · exact hb
    exact List.mem_cons_of_mem _ (ih hrest)
  | case2 a d rest hno ih =>
    rw [unescaped]
    split
    next high low hhigh hlow => exact (hno high low hhigh hlow).elim
    next =>
      rcases List.mem_cons.1 hb with rfl | hb
      · exact absurd rfl hsign
      · exact List.mem_cons_of_mem _ (ih hb)
  | case3 a rest hno ih =>
    rw [unescaped]
    · rcases List.mem_cons.1 hb with rfl | hb
      · exact List.mem_cons_self
      · exact List.mem_cons_of_mem _ (ih hb)
    · exact hno
  | case4 => cases hb

/-- Controls and blanks come out of decoding as they are. -/
theorem mem_of_decode?_unescaped {decoded : List Char} (hmem : c ∈ text) (hc : isEdge c = true)
    (h : Text.decode? (unescaped (Text.encode text)) = some decoded) : c ∈ decoded := by
  have hsmall : c.toNat ≤ 0x20 := of_decide_eq_true hc
  have hoctet : (UInt8.ofNat c.toNat).toNat = c.toNat := by
    rw [UInt8.toNat_ofNat']
    omega
  have hsign : UInt8.ofNat c.toNat ≠ 0x25 := by
    intro heq
    have hnumber : (UInt8.ofNat c.toNat).toNat = 0x25 := by
      rw [heq]
      rfl
    omega
  have hdigit : Text.digitValue? (Char.ofNat (UInt8.ofNat c.toNat).toNat) = none := by
    rw [hoctet, Char.ofNat_toNat]
    exact Option.isNone_iff_eq_none.1
      (of_isEdge (p := fun c => (Text.digitValue? c).isNone) hc (by decide))
  have hencoded : UInt8.ofNat c.toNat ∈ unescaped (Text.encode text) :=
    mem_unescaped (Text.mem_encode_of_lt hmem (by omega)) hsign hdigit
  have hlow : UInt8.ofNat c.toNat < 0x80 := by
    rw [UInt8.lt_iff_toNat_lt, hoctet]
    show c.toNat < 0x80
    omega
  have hchar := Text.mem_of_decode?_eq_some h hencoded hlow
  rwa [hoctet, Char.ofNat_toNat] at hchar

/-- A host does not end with a control or a blank, and it is not empty. -/
theorem ofText_ne_ok [Idna] (hlast : ∀ c ∈ text.getLast?, isEdge c = true) :
    Host.ofText text ≠ .ok host := by
  intro h
  unfold Host.ofText at h
  split at h
  · cases h
  next rest =>
    -- the last character would be the closing bracket
    unfold Host.ofBracketed at h
    split at h
    next numbers hbracket _ =>
      exact absurd (hlast ']' (by rw [List.getLast?_cons, hbracket]; rfl)) (by decide)
    next => cases h
  next hempty _ =>
    obtain ⟨c, hend⟩ := Option.isSome_iff_exists.1 (List.getLast?_isSome.2 hempty)
    have hc : isEdge c = true := hlast c hend
    split at h
    · cases h
    next decoded hdecoded =>
      have hmem := mem_of_decode?_unescaped (List.mem_of_getLast? hend) hc hdecoded
      -- it is refused before the name is put into ASCII
      have hforbidden : (decoded.any fun c => c.toNat < 0x80 && Host.isForbidden c) = true := by
        refine List.any_eq_true.2 ⟨c, hmem, ?_⟩
        exact of_isEdge (p := fun c => c.toNat < 0x80 && Host.isForbidden c) hc (by decide)
      rw [if_pos hforbidden] at h
      cases h

/-! ## Authorities -/

/-- No port ends with a control or a blank. -/
theorem readPort_ne_ok {digits : List Char} (hlast : digits.getLast? = some c) (hc : isEdge c = true) :
    readPort scheme digits ≠ .ok port := by
  intro h
  unfold readPort at h
  simp only at h
  split at h
  · cases h
  next hdigits =>
    rw [not_or, Bool.not_eq_false, List.all_eq_true] at hdigits
    have hdigit := hdigits.1 c (List.mem_of_getLast? hlast)
    have hnot := of_isEdge (p := fun c => !Text.isDigit c) hc (by decide)
    rw [hdigit] at hnot
    cases hnot

theorem readPlace_ne_ok [Idna] (hspecial : isSpecial scheme = true)
    (hlast : ∀ c ∈ text.getLast?, isEdge c = true) (hslash : '\\' ∉ text) :
    readPlace scheme user text ≠ .ok place := by
  intro h
  obtain ⟨hhost, ⟨hnil, -⟩ | ⟨digits, hdigits, hread, -⟩⟩ := of_readPlace_eq_ok hspecial h
  all_goals have happend := cutHost_append false text
  · rw [hnil, List.append_nil] at happend
    rw [happend] at hhost
    exact ofText_ne_ok hlast hhost
  · rw [hdigits] at happend
    have hall : ∀ d ∈ digits, decide (d ≠ '\\') = true := by
      intro d hd
      refine decide_eq_true ?_
      rintro rfl
      exact hslash (by rw [← happend]; simp [hd])
    rw [List.takeWhile_eq_self_iff.2 hall] at hread
    -- the colon itself is neither a control nor a blank
    cases hend : digits.getLast? with
    | none =>
      rw [List.getLast?_eq_none_iff.1 hend] at happend
      exact absurd (hlast ':' (by rw [← happend]; simp)) (by decide)
    | some c =>
      refine readPort_ne_ok hend (hlast c ?_) hread
      rw [← happend]
      simp [List.getLast?_cons, hend]

/-- No authority ends with a control or a blank, and none is empty. -/
theorem readAuthority_ne_ok [Idna] (hspecial : isSpecial scheme = true)
    (hlast : ∀ c ∈ text.getLast?, isEdge c = true) (hslash : '\\' ∉ text) :
    readAuthority scheme text followed ≠ .ok place := by
  intro h
  rw [readAuthority_eq] at h
  split at h
  next => exact readPlace_ne_ok hspecial hlast hslash h
  next =>
    split at h
    · cases h
    · exact readPlace_ne_ok hspecial (by simp) (by simp) h
  next user rest _ hcut =>
    obtain ⟨htext, -⟩ := cutUser?_eq_some_iff.1 hcut
    refine readPlace_ne_ok hspecial (fun c hc => hlast c ?_) (fun hmem => hslash ?_) h
    · rw [htext, List.getLast?_append, List.getLast?_cons, Option.mem_def.1 hc]
      rfl
    · rw [htext]
      simp [hmem]

/-- An authority that nothing follows is read in the same way if something does. -/
theorem readAuthority_followed [Idna] (hspecial : isSpecial scheme = true)
    (h : readAuthority scheme text false = .ok place) : readAuthority scheme text true = .ok place := by
  rw [readAuthority_eq] at h ⊢
  split at h
  next => exact h
  next =>
    rw [if_neg Bool.false_ne_true] at h
    exact absurd h (readPlace_ne_ok hspecial (by simp) (by simp))
  next hnot _ => exact h

/-! ## The place an address leads to -/

/-- Two addresses lead to the same place, by the same scheme and for the same user. -/
structure SameAuthority (u v : Url) : Prop where
  scheme : u.scheme = v.scheme
  username : u.username = v.username
  password : u.password = v.password
  host : u.host = v.host
  port : u.port = v.port

/-- Where an address leads has been read from an authority under a scheme. -/
def LedBy [Idna] (u : Url) (scheme authority : List Char) (followed : Bool) : Prop :=
  u.scheme = scheme ∧ ∃ host left,
    readAuthority scheme authority followed = .ok ((u.username, u.password), host, u.port, left) ∧
      u.host = some host

theorem LedBy.extended [Idna] (h : u.LedBy scheme text false) (hspecial : isSpecial scheme = true) :
    u.LedBy scheme text true := by
  obtain ⟨hscheme, host, left, hread, hhost⟩ := h
  exact ⟨hscheme, host, left, readAuthority_followed hspecial hread, hhost⟩

theorem LedBy.sameAuthority [Idna] (hu : u.LedBy scheme text followed)
    (hv : v.LedBy scheme text followed) : SameAuthority u v := by
  obtain ⟨husch, host, left, huread, huhost⟩ := hu
  obtain ⟨hvsch, host', left', hvread, hvhost⟩ := hv
  rw [huread] at hvread
  injection hvread with hplace
  simp only [Prod.mk.injEq] at hplace
  obtain ⟨⟨husername, hpassword⟩, rfl, hport, -⟩ := hplace
  exact ⟨husch.trans hvsch.symm, husername, hpassword, huhost.trans hvhost.symm, hport⟩

theorem ledBy_of_readHosted [Idna] (h : readHosted scheme text = .ok u) :
    u.LedBy scheme (cutAuthority (isSpecial scheme) text).1
      (!(cutAuthority (isSpecial scheme) text).2.isEmpty) := by
  obtain ⟨user, host, port, left, hplace, rfl⟩ := readHosted_eq_ok_iff.1 h
  exact ⟨rfl, host, left, hplace, rfl⟩

theorem ledBy_of_slash [Idna] (h : readHosted scheme (front ++ '/' :: more) = .ok u) :
    u.LedBy scheme (cutAuthority (isSpecial scheme) front).1 true := by
  have hled := ledBy_of_readHosted h
  rw [cutAuthority_slash] at hled
  have hfollowed :
      (!((cutAuthority (isSpecial scheme) front).2 ++ '/' :: more).isEmpty) = true := by simp
  rwa [hfollowed] at hled

/-- What comes after a slash has no part in it. -/
theorem sameAuthority_of_slash [Idna] {more' : List Char}
    (hu : readHosted scheme (front ++ '/' :: more) = .ok u)
    (hv : readHosted scheme (front ++ '/' :: more') = .ok v) : SameAuthority u v :=
  (ledBy_of_slash hu).sameAuthority (ledBy_of_slash hv)

/-- Controls and blanks may not end an authority. -/
theorem readHosted_edges_ne_ok [Idna] {edges : List Char} (hspecial : isSpecial scheme = true)
    (hfront : (cutAuthority true front).2 = []) (hnone : edges ≠ [])
    (hedges : ∀ c ∈ edges, isEdge c = true) (more : List Char) :
    readHosted scheme (front ++ edges ++ '/' :: more) ≠ .ok u := by
  intro h
  have hled := ledBy_of_slash h
  have hall : ∀ c ∈ front ++ edges, (!endsAuthority true c) = true := by
    intro c hc
    rcases List.mem_append.1 hc with hc | hc
    · exact not_endsAuthority_of_mem hfront c hc
    · exact of_isEdge (p := (!endsAuthority true ·)) (hedges c hc) (by decide)
  rw [hspecial, cutAuthority_of_forall hall] at hled
  obtain ⟨-, host, left, hread, -⟩ := hled
  refine readAuthority_ne_ok hspecial ?_ ?_ hread
  · intro c hc
    rw [List.getLast?_append_of_ne_nil _ hnone] at hc
    exact hedges c (List.mem_of_getLast? hc)
  · intro hmem
    exact absurd (hall _ hmem) (by decide)

/-- A slash may be added, even behind controls and blanks: they would end the authority, if it had not
ended before. -/
theorem sameAuthority_of_edges [Idna] {edges : List Char} (hspecial : isSpecial scheme = true)
    (hedges : ∀ c ∈ edges, isEdge c = true) (hu : readHosted scheme front = .ok u)
    (hv : readHosted scheme (front ++ edges ++ '/' :: more) = .ok v) : SameAuthority u v := by
  have huled := ledBy_of_readHosted hu
  have hvled := ledBy_of_slash hv
  rw [hspecial] at huled hvled
  by_cases hrest : (cutAuthority true front).2 = []
  · have hnone : edges = [] := by
      by_contra hnone
      exact readHosted_edges_ne_ok hspecial hrest hnone hedges more hv
    rw [hnone, List.append_nil] at hvled
    rw [hrest] at huled
    exact (huled.extended hspecial).sameAuthority hvled
  · -- the authority has ended before what is added
    have hfollowed : (!(cutAuthority true front).2.isEmpty) = true := by simpa using hrest
    rw [hfollowed] at huled
    rw [cutAuthority_append hrest] at hvled
    exact huled.sameAuthority hvled

theorem readHosted_nil_ne_ok [Idna] (hspecial : isSpecial scheme = true) : readHosted scheme [] ≠ .ok u := by
  intro h
  obtain ⟨_, host, port, left, hread, -⟩ := readHosted_eq_ok_iff.1 h
  exact readAuthority_ne_ok hspecial (by simp [cutAuthority]) (by simp [cutAuthority]) hread

end ActionBook.Url
