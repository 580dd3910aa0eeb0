import Sret.RoutingSpec

namespace Sret

open Text Router

/-!
# Hosts in the Host header

The host forms that a Host header may carry, against the domains of a route.

* `IsHost` — DNS names and IPv4 addresses, and bracketed IPv6 literals, which contain colons;
* `HasHostHeader` — a request with such a host in its Host header, alone or with a port;
* `Route.NamesHost` — the host is one of the domains, ignoring case;
* `before_hostText_of_name`, `before_hostText_of_ipv6` — what the code takes for the host;
* `host_matching_iff` — names are matched as they should be, with and without a port; a bracketed
  literal is cut at its first colon, and so is never found among the domains.
-/

/-! ### The hosts -/

/-- The characters of DNS names and IPv4 addresses. -/
def nameChars : Str :=
  "abcdefghijklmnopqrstuvwxyzABCDEFGHIJKLMNOPQRSTUVWXYZ0123456789-._".toList

/-- The characters of IPv6 addresses. -/
def ipv6Chars : Str := "0123456789abcdefABCDEF:.".toList

/-- A DNS name or an IPv4 address. -/
def IsName (h : Str) : Prop := h ≠ [] ∧ ∀ c ∈ h, c ∈ nameChars

/-- An IPv6 address in brackets. -/
def IsIpv6Literal (h : Str) : Prop :=
  ∃ address, h = '[' :: (address ++ [']']) ∧ (∀ c ∈ address, c ∈ ipv6Chars) ∧ ':' ∈ address

/-- A host that a Host header may carry. -/
inductive IsHost (h : Str) : Prop
  | name (isName : IsName h)
  | ipv6 (isLiteral : IsIpv6Literal h)

/-- The host alone, or followed by a port. -/
def IsHostText (h text : Str) : Prop :=
  text = h ∨ ∃ port : Str, port.all Char.isDigit = true ∧ text = h ++ ':' :: port

/-- The request has a Host header with this host. -/
def HasHostHeader (req : Request) (h : Str) : Prop :=
  ∃ text v, IsHostText h text ∧ req.headers.get HeaderName.host = some v ∧
    v.bytes = text.map fun c => UInt8.ofNat c.toNat

/-- The host is one of the domains, ignoring case. -/
def Route.NamesHost (p : Platform) (route : Route) (h : Str) : Prop :=
  ∃ domain ∈ route.domains, p.toLowercase domain = p.toLowercase h

/-! ### Characters of hosts -/

/-- The characters of a name, tested one by one. -/
theorem nameChars_all : (nameChars.all fun c => isVisibleChar c && c != ':' && c != ']' &&
    c.toLower != '[' && c.toLower != ']') = true := by
  decide

/-- The characters of an IPv6 address, tested one by one. -/
theorem ipv6Chars_all : (ipv6Chars.all fun c => isVisibleChar c && c.toLower != ']') = true := by
  decide

/-- A character of a name is visible, and is no delimiter. -/
theorem of_mem_nameChars {c : Char} (h : c ∈ nameChars) :
    isVisibleChar c = true ∧ c ≠ ':' ∧ c.toLower ≠ '[' := by
  have hall := List.all_eq_true.mp nameChars_all c h
  simp only [Bool.and_eq_true, bne_iff_ne] at hall
  exact ⟨hall.1.1.1.1, hall.1.1.1.2, hall.1.2⟩

/-- A character of an IPv6 address is visible, and does not close the bracket. -/
theorem of_mem_ipv6Chars {c : Char} (h : c ∈ ipv6Chars) :
    isVisibleChar c = true ∧ c.toLower ≠ ']' := by
  have hall := List.all_eq_true.mp ipv6Chars_all c h
  simpa only [Bool.and_eq_true, bne_iff_ne] using hall

/-- The characters of a host are visible ASCII. -/
theorem IsHost.visible {h : Str} (hh : IsHost h) : ∀ c ∈ h, isVisibleChar c = true := by
  cases hh with
  | name isName => exact fun c hc => (of_mem_nameChars (isName.2 c hc)).1
  | ipv6 isLiteral =>
    obtain ⟨address, rfl, haddress, -⟩ := isLiteral
    intro c hc
    rcases List.mem_cons.mp hc with rfl | hc
    · decide
    · rcases List.mem_append.mp hc with hc | hc
      · exact (of_mem_ipv6Chars (haddress c hc)).1
      · obtain rfl := List.mem_singleton.mp hc
        decide

/-- Visible characters are ASCII. -/
theorem ascii_of_visible {c : Char} (h : isVisibleChar c = true) : c.toNat < 128 := by
  simp only [isVisibleChar, Bool.or_eq_true, Bool.and_eq_true, decide_eq_true_eq, beq_iff_eq] at h
  omega

/-- Ignoring case means the same for hosts as for ASCII. -/
theorem IsHost.toLowercase {h : Str} (hh : IsHost h) (p : Platform) :
    p.toLowercase h = h.map Char.toLower :=
  p.toLowercase_ascii h fun c hc => ascii_of_visible (hh.visible c hc)

/-! ### What the code takes for the host -/

/-- A Host value is visible. -/
theorem IsHostText.visible {h text : Str} (htext : IsHostText h text) (hh : IsHost h) :
    text.all isVisibleChar = true := by
  rw [List.all_eq_true]
  rcases htext with rfl | ⟨port, hport, rfl⟩
  · exact hh.visible
  · intro c hc
    rcases List.mem_append.mp hc with hc | hc
    · exact hh.visible c hc
    · rcases List.mem_cons.mp hc with rfl | hc
      · decide
      · exact visible_of_digit (List.all_eq_true.mp hport c hc)

/-- The handler passes the text of the Host header to the router. -/
theorem requestHost_of_hasHostHeader {req : Request} {h : Str} (hreq : HasHostHeader req h)
    (hh : IsHost h) : ∃ text, IsHostText h text ∧ requestHost req = some text := by
  obtain ⟨text, v, htext, hv, hbytes⟩ := hreq
  obtain rfl : v = HeaderValue.ofStr text (htext.visible hh) := by
    obtain ⟨bytes, hlegal⟩ := v
    obtain rfl : bytes = text.map fun c => UInt8.ofNat c.toNat := hbytes
    rfl
  exact ⟨text, htext, by rw [requestHost, hv, Option.bind_some, HeaderValue.toStr_ofStr]⟩

/-- After a host comes nothing, or a colon. -/
theorem IsHostText.exists_rest {h text : Str} (htext : IsHostText h text) :
    ∃ rest, text = h ++ rest ∧ ∀ c, rest.head? = some c → (c == ':') = true := by
  rcases htext with rfl | ⟨port, -, rfl⟩
  · exact ⟨[], by simp, by simp⟩
  · refine ⟨':' :: port, rfl, fun c hc => ?_⟩
    rw [← Option.some.inj hc]
    rfl

/-- A name ends where the code ends it. -/
theorem before_hostText_of_name {h text : Str} (htext : IsHostText h text) (hname : IsName h) :
    before (· == ':') text = h := by
  obtain ⟨rest, rfl, hrest⟩ := htext.exists_rest
  rw [before_append fun c hc => beq_eq_false_iff_ne.mpr (of_mem_nameChars (hname.2 c hc)).2.1,
    before_eq_nil.mpr hrest, List.append_nil]

/-- A bracketed literal is cut at its first colon, which stands inside the brackets. -/
theorem before_hostText_of_ipv6 {h text : Str} (htext : IsHostText h text)
    (hliteral : IsIpv6Literal h) :
    ∃ piece rest, before (· == ':') text = '[' :: piece ∧ (∀ c ∈ piece, c ∈ ipv6Chars) ∧
      h = ('[' :: piece) ++ ':' :: rest := by
  obtain ⟨address, rfl, haddress, hcolon⟩ := hliteral
  obtain ⟨piece, after, rfl, hpiece⟩ := List.eq_append_cons_of_mem hcolon
  refine ⟨piece, after ++ [']'], ?_, fun c hc => haddress c (List.mem_append_left _ hc), by simp⟩
  obtain ⟨rest, rfl, -⟩ := htext.exists_rest
  have hsplit : '[' :: ((piece ++ ':' :: after) ++ [']']) ++ rest =
      ('[' :: piece) ++ ':' :: (after ++ [']'] ++ rest) := by
    simp
  have hclosed : ∀ c ∈ '[' :: piece, (c == ':') = false := by
    intro c hc
    rw [beq_eq_false_iff_ne]
    rintro rfl
    rcases List.mem_cons.mp hc with hc | hc
    · exact absurd hc (by decide)
    · exact hpiece hc
  rw [hsplit, before_append hclosed, before_eq_nil.mpr (by simp), List.append_nil]

/-! ### Matching -/

/-- The domains of the route are compared with the part of the value before its first colon. -/
theorem domainMatches_text (p : Platform) (route : Route) (text : Str) :
    domainMatches p route (some text) = true ↔ route.NamesHost p (before (· == ':') text) := by
  rw [domainMatches_iff, Route.MatchesHost, Route.NamesHost]
  simp only [Option.some.injEq, exists_eq_left']

/-- The piece of a literal that the code compares is shorter than the literal. -/
theorem toLowercase_piece_ne (p : Platform) {piece rest : Str}
    (hh : IsHost (('[' :: piece) ++ ':' :: rest)) :
    p.toLowercase (('[' :: piece) ++ ':' :: rest) ≠ p.toLowercase ('[' :: piece) := by
  have hascii : ∀ c ∈ '[' :: piece, c.toNat < 128 :=
    fun c hc => ascii_of_visible (hh.visible c (List.mem_append_left _ hc))
  rw [hh.toLowercase p, p.toLowercase_ascii _ hascii]
  intro heq
  have hlength := congrArg List.length heq
  simp only [List.length_map, List.length_append, List.length_cons] at hlength
  omega

/-- No host is, ignoring case, a bracket that is opened and not closed. -/
theorem toLowercase_ne_piece (p : Platform) {domain piece : Str} (hdomain : IsHost domain)
    (hpiece : ∀ c ∈ piece, c ∈ ipv6Chars) :
    p.toLowercase domain ≠ p.toLowercase ('[' :: piece) := by
  have hascii : ∀ c ∈ '[' :: piece, c.toNat < 128 := by
    intro c hc
    rcases List.mem_cons.mp hc with rfl | hc
    · decide
    · exact ascii_of_visible (of_mem_ipv6Chars (hpiece c hc)).1
  rw [hdomain.toLowercase p, p.toLowercase_ascii _ hascii]
  intro heq
  cases hdomain with
  | name isName =>
    -- a name has no bracket to open
    have hopen : '[' ∈ domain.map Char.toLower := by
      rw [heq]
      exact List.mem_cons_self ..
    obtain ⟨c, hc, hlower⟩ := List.mem_map.mp hopen
    exact (of_mem_nameChars (isName.2 c hc)).2.2 hlower
  | ipv6 isLiteral =>
    -- a literal has one that closes, the piece has none
    obtain ⟨address, rfl, -, -⟩ := isLiteral
    have hclose : ']' ∈ ('[' :: piece).map Char.toLower := by
      rw [← heq]
      exact List.mem_map.mpr ⟨']', by simp, rfl⟩
    obtain ⟨c, hc, hlower⟩ := List.mem_map.mp hclose
    rcases List.mem_cons.mp hc with rfl | hc
    · exact absurd hlower (by decide)
    · exact (of_mem_ipv6Chars (hpiece c hc)).2 hlower

/-- A request for a page of the host. -/
def hostRequest (h : Str) (hh : IsHost h) : Request where
  method := .get
  uri := Uri.root
  headers := ⟨[(HeaderName.host, HeaderValue.ofStr h (List.all_eq_true.mpr hh.visible))]⟩

/-- The request has the host in its Host line. -/
theorem hasHostHeader_hostRequest {h : Str} (hh : IsHost h) :
    HasHostHeader (hostRequest h hh) h :=
  ⟨h, _, Or.inl rfl, rfl, rfl⟩

/-- **When hosts are matched rightly.**  For every host that a Host header may carry: a route
    matches the requests with this host, alone or with a port, exactly if the host is one of its
    domains, ignoring case — unless the host is a bracketed IPv6 literal.  A request with such a
    host matches no route by domain whose domains are hosts. -/
theorem host_matching_iff (p : Platform) (h : Str) (hh : IsHost h) :
    ((∀ (route : Route) (req : Request), HasHostHeader req h →
        (domainMatches p route (requestHost req) = true ↔ route.NamesHost p h)) ↔
      ¬ IsIpv6Literal h) ∧
    (IsIpv6Literal h → ∀ (route : Route) (req : Request), (∀ domain ∈ route.domains,
      IsHost domain) → HasHostHeader req h → domainMatches p route (requestHost req) = false) := by
  refine ⟨⟨fun hall hliteral => ?_, fun hnot route req hreq => ?_⟩,
    fun hliteral route req hdomains hreq => ?_⟩
  · -- the route that has just this domain
    obtain ⟨text, htext, hhost⟩ :=
      requestHost_of_hasHostHeader (hasHostHeader_hostRequest hh) hh
    have hmatch := (hall ⟨[h], [], []⟩ _ (hasHostHeader_hostRequest hh)).mpr
      ⟨h, List.mem_singleton.mpr rfl, rfl⟩
    rw [hhost, domainMatches_text] at hmatch
    obtain ⟨domain, hmem, hsame⟩ := hmatch
    obtain rfl := List.mem_singleton.mp hmem
    obtain ⟨piece, rest, hbefore, -, hsplit⟩ := before_hostText_of_ipv6 htext hliteral
    rw [hbefore, hsplit] at hsame
    exact toLowercase_piece_ne p (hsplit ▸ hh) hsame
  · obtain ⟨text, htext, hhost⟩ := requestHost_of_hasHostHeader hreq hh
    have hname : IsName h := by
      cases hh with
      | name isName => exact isName
      | ipv6 isLiteral => exact absurd isLiteral hnot
    rw [hhost, domainMatches_text, before_hostText_of_name htext hname]
  · obtain ⟨text, htext, hhost⟩ := requestHost_of_hasHostHeader hreq hh
    obtain ⟨piece, rest, hbefore, hpiece, -⟩ := before_hostText_of_ipv6 htext hliteral
    rw [← Bool.not_eq_true, hhost, domainMatches_text, hbefore]
    rintro ⟨domain, hmem, hsame⟩
    exact toLowercase_ne_piece p (hdomains domain hmem) hpiece hsame

/-! ### A name and a literal -/

/-- A name, not all in lower case. -/
theorem isHost_shop : IsHost "Shop.Test".toList := by
  refine .name ⟨by decide, fun c hc => ?_⟩
  have hall : "Shop.Test".toList.all nameChars.contains = true := by decide
  exact List.contains_iff_mem.mp (List.all_eq_true.mp hall c hc)

/-- An IPv6 address in brackets. -/
theorem isHost_loopback : IsHost "[::1]".toList := by
  refine .ipv6 ⟨"::1".toList, rfl, fun c hc => ?_, by simp⟩
  have hall : "::1".toList.all ipv6Chars.contains = true := by decide
  exact List.contains_iff_mem.mp (List.all_eq_true.mp hall c hc)

/-- A name in other letters than the route has it. -/
theorem host_matching_iff_shop :
    domainMatches Platform.ascii ⟨["shop.test".toList], [], []⟩
      (requestHost (hostRequest "Shop.Test".toList isHost_shop)) = true := by
  have hnot : ¬ IsIpv6Literal "Shop.Test".toList := by
    rintro ⟨address, heq, -⟩
    exact absurd (List.cons.inj heq).1 (by decide)
  exact ((host_matching_iff Platform.ascii _ isHost_shop).1.mpr hnot _ _
    (hasHostHeader_hostRequest isHost_shop)).mpr ⟨"shop.test".toList, by simp, by decide⟩

/-- A route for a literal does not match the requests for it. -/
theorem ipv6_host_unmatched :
    ¬ ∀ (p : Platform) (h : Str) (route : Route) (req : Request), IsHost h →
      HasHostHeader req h → route.NamesHost p h →
        domainMatches p route (requestHost req) = true := by
  intro h
  have hmatch := h Platform.ascii _ ⟨["[::1]".toList], [], []⟩ _ isHost_loopback
    (hasHostHeader_hostRequest isHost_loopback) ⟨"[::1]".toList, by simp, rfl⟩
  exact absurd hmatch (by decide)

end Sret
