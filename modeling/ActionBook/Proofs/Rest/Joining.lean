import ActionBook.Proofs.Url.Continuation
import ActionBook.Rest.Request
import ActionBook.Url.AsciiNames

/-!
# `Rest.Joining`: an address from base and path

A path is put behind the base without looking at what base and path are. A slash stands between the
two, so the request goes where the base leads whatever the path says (`path_keeps_authority`).
-/

namespace ActionBook.Rest

open Url (SameAuthority)

theorem exists_withoutTrailingSlashes (text : List Char) :
    ∃ slashes, (∀ c ∈ slashes, c = '/') ∧ withoutTrailingSlashes text ++ slashes = text := by
  obtain ⟨slashes, hslashes, htext⟩ := Text.exists_reverse_dropWhile (· = '/') text
  exact ⟨slashes, fun c hc => of_decide_eq_true (hslashes c hc), htext⟩

/-- The address without its query is the one that base and path make. -/
theorem exists_parse_of_url [Url.Idna] {base path : String} {query : List Property} {u : Url}
    (h : url base path query = .ok u) :
    ∃ joined, Url.parse (join base.toList path.toList) = .ok joined ∧
      u = { joined with query := Url.appendPairs joined.query (namedPairs query) } := by
  unfold url at h
  simp only at h
  split at h
  · cases h
  next joined hparse =>
    cases h
    exact ⟨joined, hparse, rfl⟩

/-- Where base and path make an address, so do they with any query. -/
theorem url_of_parse [Url.Idna] {base path : String} {joined : Url}
    (h : Url.parse (join base.toList path.toList) = .ok joined) (query : List Property) :
    url base path query =
      .ok { joined with query := Url.appendPairs joined.query (namedPairs query) } := by
  simp only [url, h]

theorem isSpecial_of_spoken {scheme : List Char} (h : scheme ∈ Http.spokenSchemes) :
    Url.isSpecial scheme = true ∧ scheme ≠ Url.fileScheme := by
  have hall : ∀ scheme ∈ Http.spokenSchemes,
      Url.isSpecial scheme = true ∧ scheme ≠ Url.fileScheme := by decide
  exact hall scheme h

/-- A request goes where the base leads, by the same scheme and for the same user, whatever path and
query are. -/
theorem path_keeps_authority [Url.Idna] {base path : String} {query : List Property} {b u : Url}
    (hbase : Url.parse base.toList = .ok b) (hscheme : b.scheme ∈ Http.spokenSchemes)
    (h : url base path query = .ok u) :
    u.scheme = b.scheme ∧ u.username = b.username ∧ u.password = b.password ∧ u.host = b.host ∧
      u.port = b.port := by
  obtain ⟨joined, hparse, rfl⟩ := exists_parse_of_url h
  obtain ⟨hspecial, hfile⟩ := isSpecial_of_spoken hscheme
  have hsame : SameAuthority b joined := by
    unfold join at hparse
    split at hparse
    · rw [hbase] at hparse
      cases hparse
      exact ⟨rfl, rfl, rfl, rfl, rfl⟩
    · obtain ⟨slashes, hslashes, hsplit⟩ := exists_withoutTrailingSlashes base.toList
      rw [← hsplit] at hbase
      exact SameAuthority.of_parse hbase hslashes hspecial hfile hparse
  exact ⟨hsame.scheme.symm, hsame.username.symm, hsame.password.symm, hsame.host.symm,
    hsame.port.symm⟩

/-- A path that looks like the address of another server. -/
theorem path_keeps_authority_elsewhere :
    ∃ b u, Url.parse "http://u:p@api.test:8080/v1//".toList = .ok b ∧
      b.scheme ∈ Http.spokenSchemes ∧
      url "http://u:p@api.test:8080/v1//" "//@evil.test:1\\..\\/../x" [⟨"q", "@/"⟩] = .ok u ∧
      (u.scheme = b.scheme ∧ u.username = b.username ∧ u.password = b.password ∧ u.host = b.host ∧
        u.port = b.port) := by
  have hbase : Url.parse "http://u:p@api.test:8080/v1//".toList =
      .ok { scheme := ['h', 't', 't', 'p'], username := ['u'], password := some ['p'],
            host := some (.name "api.test".toList), port := some 8080,
            path := .segments [['v', '1'], [], []] } := by decide +kernel
  have hok : (url "http://u:p@api.test:8080/v1//" "//@evil.test:1\\..\\/../x" [⟨"q", "@/"⟩]).isOk =
      true := by decide +kernel
  cases h : url "http://u:p@api.test:8080/v1//" "//@evil.test:1\\..\\/../x" [⟨"q", "@/"⟩] with
  | error e =>
    rw [h] at hok
    cases hok
  | ok u =>
    have hscheme : ['h', 't', 't', 'p'] ∈ Http.spokenSchemes := by decide
    exact ⟨_, u, hbase, hscheme, rfl, path_keeps_authority hbase hscheme h⟩

end ActionBook.Rest
