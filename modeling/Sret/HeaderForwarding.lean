import Sret.Proxy

namespace Sret

open Text

/-!
# Header lines on their way to the target

The request headers that `do_proxy_request` receives, against the ones that it sends.

* `UpstreamRequest.sentHeaders` — what the builder makes of the lines it is given, one after the
  other; it appends, and would fail on a value that cannot be spelled;
* `sentHeaders_upstreamRequest` — it never fails, and what is sent are the lines that are not Host
  and are visible ASCII, in their order;
* `headers_survive_iff` — so the lines of a name survive exactly when no value of the name holds a
  byte beyond ASCII: such a line is left out, while the response is relayed with all its lines.
-/

/-! ### The request builder -/

/-- `HeaderValue::from_str`. -/
def HeaderValue.fromStr (s : Str) : Option HeaderValue :=
  if h : s.all isVisibleChar = true then some (ofStr s h) else none

namespace UpstreamRequest

/-- `RequestBuilder::header`, which appends a line, or leaves a builder that fails. -/
def header (builder : Option HeaderMap) (line : HeaderName × Str) : Option HeaderMap :=
  builder.bind fun headers => (HeaderValue.fromStr line.2).map fun v => headers.append line.1 v

/-- The header lines of the request that is sent, unless the builder has failed. -/
def sentHeaders (u : UpstreamRequest) : Option HeaderMap :=
  u.headers.foldl header (some HeaderMap.empty)

end UpstreamRequest

/-- Spelling a value that was read as text gives the value back. -/
theorem HeaderValue.fromStr_toStr {v : HeaderValue} {s : Str} (h : v.toStr = some s) :
    fromStr s = some v := by
  have hvisible := visible_of_toStr h
  rw [fromStr, dif_pos hvisible, toStr_inj h (toStr_ofStr s hvisible)]

/-- A field value can be read as text when it is ASCII. -/
theorem HeaderValue.isSome_toStr_iff (v : HeaderValue) :
    v.toStr.isSome = true ↔ ∀ b ∈ v.bytes, b.toNat < 128 := by
  have hvisible : v.toStr.isSome = true ↔ v.bytes.all isVisibleByte = true := by
    unfold toStr
    split
    · simp [*]
    · simp [*]
  rw [hvisible, List.all_eq_true]
  refine forall₂_congr fun b hb => ?_
  have hlegal := List.all_eq_true.mp v.legal b hb
  simp only [isHeaderByte, isVisibleByte, Bool.or_eq_true, Bool.and_eq_true, decide_eq_true_eq,
    beq_iff_eq, bne_iff_ne] at hlegal ⊢
  omega

/-! ### What is sent -/

/-- The loop of `do_proxy_request` sends this line. -/
def isForwarded (l : HeaderName × HeaderValue) : Bool := l.1 ≠ HeaderName.host && l.2.toStr.isSome

theorem forwardedHeaders_cons_of_not {line : HeaderName × HeaderValue}
    (h : isForwarded line = false) (lines : List (HeaderName × HeaderValue)) :
    forwardedHeaders ⟨line :: lines⟩ = forwardedHeaders ⟨lines⟩ := by
  refine List.filterMap_cons_none ?_
  by_cases hhost : line.1 = HeaderName.host
  · simp [hhost]
  · simpa [isForwarded, hhost] using h

theorem forwardedHeaders_cons {line : HeaderName × HeaderValue} {s : Str}
    (hhost : line.1 ≠ HeaderName.host) (hs : line.2.toStr = some s)
    (lines : List (HeaderName × HeaderValue)) :
    forwardedHeaders ⟨line :: lines⟩ = (line.1, s) :: forwardedHeaders ⟨lines⟩ :=
  List.filterMap_cons_some (by simp [hhost, hs])

/-- The builder appends the lines that are forwarded, and never fails. -/
theorem foldl_header_forwarded (lines : List (HeaderName × HeaderValue)) (sent : HeaderMap) :
    (forwardedHeaders ⟨lines⟩).foldl UpstreamRequest.header (some sent) =
      some ⟨sent.lines ++ lines.filter isForwarded⟩ := by
  induction lines generalizing sent with
  | nil => simp [forwardedHeaders]
  | cons line lines ih =>
    cases hline : isForwarded line with
    | false =>
      rw [forwardedHeaders_cons_of_not hline, ih, List.filter_cons_of_neg (by simp [hline])]
    | true =>
      have hkept := hline
      simp only [isForwarded, Bool.and_eq_true, decide_eq_true_eq] at hkept
      obtain ⟨s, hs⟩ := Option.isSome_iff_exists.mp hkept.2
      -- the value is spelled as it was read
      have hheader : UpstreamRequest.header (some sent) (line.1, s) =
          some (sent.append line.1 line.2) := by
        simp [UpstreamRequest.header, HeaderValue.fromStr_toStr hs]
      rw [forwardedHeaders_cons hkept.1 hs, List.foldl_cons, hheader, ih,
        List.filter_cons_of_pos hline, HeaderMap.append, List.append_assoc]
      rfl

/-- **What is sent**: the lines that are not Host and can be read as text. -/
theorem sentHeaders_upstreamRequest (req : Request) (targetUrl : Str) (bodyBytes : List UInt8) :
    (upstreamRequest req targetUrl bodyBytes).sentHeaders =
      some ⟨req.headers.lines.filter isForwarded⟩ :=
  foldl_header_forwarded req.headers.lines HeaderMap.empty

/-- The values of a name that are sent. -/
theorem getAll_forwarded {name : HeaderName} (hname : name ≠ HeaderName.host)
    (headers : HeaderMap) :
    HeaderMap.getAll ⟨headers.lines.filter isForwarded⟩ name =
      (headers.getAll name).filter fun v => v.toStr.isSome := by
  rw [HeaderMap.getAll, HeaderMap.getAll, List.filter_map, List.filter_filter, List.filter_filter]
  refine congrArg (List.map Prod.snd) (List.filter_congr fun l _ => ?_)
  by_cases hl : l.1 = name
  · simp [isForwarded, hl, hname]
  · simp [hl]

/-! ### When header lines survive -/

/-- The request sent has the lines of the name that the request received has, in their order. -/
def Survives (req : Request) (targetUrl : Str) (bodyBytes : List UInt8) (name : HeaderName) :
    Prop :=
  ∃ sent, (upstreamRequest req targetUrl bodyBytes).sentHeaders = some sent ∧
    sent.getAll name = req.headers.getAll name

/-- **When header lines survive.**  For every request and every name other than Host, the lines of
    the name are sent to the target as they came, in the same order and number, exactly when no
    value of the name has a byte from 128 on. -/
theorem headers_survive_iff (req : Request) (targetUrl : Str) (bodyBytes : List UInt8)
    (name : HeaderName) (hname : name ≠ HeaderName.host) :
    Survives req targetUrl bodyBytes name ↔
      ∀ v ∈ req.headers.getAll name, ∀ b ∈ v.bytes, b.toNat < 128 := by
  rw [Survives, sentHeaders_upstreamRequest]
  simp only [Option.some.injEq, exists_eq_left', getAll_forwarded hname, List.filter_eq_self,
    HeaderValue.isSome_toStr_iff]

/-- A request with one header line. -/
def requestWith (name : HeaderName) (v : HeaderValue) : Request where
  method := .get
  uri := Uri.root
  headers := ⟨[(name, v)]⟩

/-- A cookie goes through. -/
theorem headers_survive_iff_cookie :
    Survives (requestWith HeaderName.cookie ⟨[105, 100, 61, 55], by decide⟩) [] []
      HeaderName.cookie := by
  refine (headers_survive_iff _ _ _ _ (by decide)).mpr fun v hv b hb => ?_
  obtain rfl : v = ⟨[105, 100, 61, 55], by decide⟩ := by
    simpa [requestWith, HeaderMap.getAll] using hv
  have hall : ([105, 100, 61, 55] : List UInt8).all (fun b => b.toNat < 128) = true := by decide
  exact of_decide_eq_true (List.all_eq_true.mp hall b hb)

/-- A cookie with an `é` in Latin-1 is lost. -/
theorem latin1_cookie_lost :
    ¬ ∀ (req : Request) (targetUrl : Str) (bodyBytes : List UInt8) (name : HeaderName),
      name ≠ HeaderName.host → Survives req targetUrl bodyBytes name := by
  intro h
  obtain ⟨sent, hsent, hsame⟩ :=
    h (requestWith HeaderName.cookie ⟨[105, 100, 61, 0xE9], by decide⟩) [] [] HeaderName.cookie
      (by decide)
  obtain rfl : HeaderMap.empty = sent := Option.some.inj hsent
  simp [requestWith, HeaderMap.getAll, HeaderMap.empty] at hsame

end Sret
