import QuantTrade.Connectivity.FixFields
import QuantTrade.Library.HttpMessage
import QuantTrade.Monitor.AlertHistory

/-!
# Posting an alert

`parse_url` and `do_http_post` of `src/monitor/alerting.cpp`, as they are compiled for Linux.  The
request is written piece by piece with `send`, which may take a part of what it is offered or fail;
the loop gives up at the first failure.  The peer reads the request by its lines and its
`Content-Length`, so it sees the alert or nothing (`peer_reads_alert_or_nothing`).
-/

namespace QuantTrade

namespace Alerting

/-! ## The address -/

/-- `std::string_view::find` of one byte. -/
def find (c : UInt8) (s : List UInt8) : Option ℕ :=
  s.findIdx? (· = c)

/-- `std::string_view::rfind` of one byte. -/
def rfind (c : UInt8) (s : List UInt8) : Option ℕ :=
  (s.reverse.findIdx? (· = c)).map fun i => s.length - 1 - i

/-- `ParsedUrl`. -/
structure ParsedUrl where
  host : List UInt8
  port : List UInt8
  path : List UInt8
  deriving DecidableEq, Repr

/-- `parse_url`. -/
def parseUrl (url : List UInt8) : ParsedUrl :=
  let sv :=
    if utf8 "http://" <+: url then url.drop 7
    else if utf8 "https://" <+: url then url.drop 8
    else url
  let slash := find '/'.toUInt8 sv
  let hostport := match slash with
    | none => sv
    | some i => sv.take i
  let path := match slash with
    | none => utf8 "/"
    | some i => sv.drop i
  match rfind ':'.toUInt8 hostport with
  | none => { host := hostport, port := utf8 "80", path := path }
  | some i => { host := hostport.take i, port := hostport.drop (i + 1), path := path }

/-- An address, written with or without its scheme, its port and its path. -/
structure Url where
  scheme : List UInt8
  host : List UInt8
  port : Option (List UInt8)
  path : List UInt8
  scheme_mem : scheme ∈ [utf8 "http://", utf8 "https://", []]
  host_slash : '/'.toUInt8 ∉ host
  host_colon : port = none → ':'.toUInt8 ∉ host
  port_clean : ∀ p ∈ port, '/'.toUInt8 ∉ p ∧ ':'.toUInt8 ∉ p
  path_slash : path = [] ∨ path.head? = some '/'.toUInt8

namespace Url

/-- The host, and the port behind a colon. -/
def hostport (u : Url) : List UInt8 :=
  match u.port with
  | none => u.host
  | some p => u.host ++ ':'.toUInt8 :: p

/-- The text of an address. -/
def text (u : Url) : List UInt8 :=
  u.scheme ++ (u.hostport ++ u.path)

/-- An address without a scheme does not begin like one with a scheme. -/
def Unambiguous (u : Url) : Prop :=
  u.scheme = [] → ¬utf8 "http://" <+: u.text ∧ ¬utf8 "https://" <+: u.text

end Url

lemma find_append {c : UInt8} {l : List UInt8} (h : c ∉ l) (rest : List UInt8) :
    find c (l ++ c :: rest) = some l.length := by
  induction l with
  | nil => simp [find, List.findIdx?_cons]
  | cons a l ih =>
    rw [List.mem_cons, not_or] at h
    have hne : ¬a = c := fun heq => h.1 heq.symm
    simp_all [find, List.findIdx?_cons]

lemma find_eq_none {c : UInt8} {l : List UInt8} (h : c ∉ l) : find c l = none := by
  rw [find, List.findIdx?_eq_none_iff]
  intro a ha
  exact decide_eq_false fun heq => h (heq ▸ ha)

lemma rfind_append {c : UInt8} {l : List UInt8} (h : c ∉ l) (front : List UInt8) :
    rfind c (front ++ c :: l) = some front.length := by
  have hfind := find_append (l := l.reverse) (by rwa [List.mem_reverse]) front.reverse
  rw [find] at hfind
  rw [rfind, List.reverse_append, List.reverse_cons, List.append_assoc, List.singleton_append,
    hfind, Option.map_some, List.length_append, List.length_cons, List.length_reverse]
  congr 1
  omega

lemma rfind_eq_none {c : UInt8} {l : List UInt8} (h : c ∉ l) : rfind c l = none := by
  have hfind := find_eq_none (l := l.reverse) (by rwa [List.mem_reverse])
  rw [find] at hfind
  rw [rfind, hfind, Option.map_none]

/-- The scheme is skipped. -/
lemma skip_scheme {u : Url} (h : u.Unambiguous) :
    (if utf8 "http://" <+: u.text then u.text.drop 7
      else if utf8 "https://" <+: u.text then u.text.drop 8 else u.text) =
      u.hostport ++ u.path := by
  have hmem := u.scheme_mem
  simp only [List.mem_cons, List.not_mem_nil, or_false] at hmem
  rcases hmem with hscheme | hscheme | hscheme
  · have htext : u.text = utf8 "http://" ++ (u.hostport ++ u.path) := by rw [Url.text, hscheme]
    rw [htext, if_pos (List.prefix_append _ _)]
    exact List.drop_left' rfl
  · have htext : u.text = utf8 "https://" ++ (u.hostport ++ u.path) := by rw [Url.text, hscheme]
    have hno : ¬utf8 "http://" <+: utf8 "https://" ++ (u.hostport ++ u.path) := by
      intro hpre
      have hhead : utf8 "http://" <+: utf8 "https://" :=
        List.prefix_of_prefix_length_le hpre (List.prefix_append _ _) (by decide +kernel)
      exact absurd hhead (by decide +kernel)
    rw [htext, if_neg hno, if_pos (List.prefix_append _ _)]
    exact List.drop_left' rfl
  · obtain ⟨hhttp, hhttps⟩ := h hscheme
    rw [if_neg hhttp, if_neg hhttps, Url.text, hscheme, List.nil_append]

lemma slash_not_mem_hostport (u : Url) : '/'.toUInt8 ∉ u.hostport := by
  have hport := u.port_clean
  rw [Url.hostport]
  cases hp : u.port with
  | none => exact u.host_slash
  | some p =>
    have hclean := (hport p hp).1
    simp only [List.mem_append, List.mem_cons, not_or]
    exact ⟨u.host_slash, by decide, hclean⟩

/-- **Addresses are read as they are written.**  For every address, with or without scheme, port and
path, `parse_url` finds its host, its port or else 80, and its path or else `/`. -/
theorem parseUrl_text (u : Url) (h : u.Unambiguous) :
    parseUrl u.text =
      { host := u.host
        port := u.port.getD (utf8 "80")
        path := if u.path = [] then utf8 "/" else u.path } := by
  have hslash := slash_not_mem_hostport u
  -- the part in front of the first slash, and the rest
  have hsplit : (match find '/'.toUInt8 (u.hostport ++ u.path) with
        | none => u.hostport ++ u.path
        | some i => (u.hostport ++ u.path).take i) = u.hostport ∧
      (match find '/'.toUInt8 (u.hostport ++ u.path) with
        | none => utf8 "/"
        | some i => (u.hostport ++ u.path).drop i) =
        if u.path = [] then utf8 "/" else u.path := by
    rcases u.path_slash with hnil | hhead
    · rw [hnil, List.append_nil, find_eq_none hslash, if_pos rfl]
      exact ⟨rfl, rfl⟩
    · obtain ⟨rest, hpath⟩ := List.head?_eq_some_iff.mp hhead
      rw [hpath, find_append hslash, if_neg (List.cons_ne_nil _ _)]
      exact ⟨List.take_left' rfl, List.drop_left' rfl⟩
  rw [parseUrl, skip_scheme h, hsplit.1, hsplit.2]
  cases hp : u.port with
  | none =>
    have hhostport : u.hostport = u.host := by rw [Url.hostport, hp]
    rw [hhostport, rfind_eq_none (u.host_colon hp)]
    rfl
  | some p =>
    have hhostport : u.hostport = u.host ++ ':'.toUInt8 :: p := by rw [Url.hostport, hp]
    have hclean := (u.port_clean p hp).2
    rw [hhostport, rfind_append hclean]
    simp

/-- An address with all its parts. -/
def exampleUrl : Url where
  scheme := utf8 "http://"
  host := utf8 "h"
  port := some (utf8 "8080")
  path := utf8 "/a"
  scheme_mem := by decide +kernel
  host_slash := by decide +kernel
  host_colon := by decide +kernel
  port_clean := by decide +kernel
  path_slash := by decide +kernel

lemma unambiguous_exampleUrl : exampleUrl.Unambiguous :=
  fun h => absurd h (by decide +kernel)

theorem parseUrl_text_example :
    parseUrl exampleUrl.text =
      { host := exampleUrl.host
        port := exampleUrl.port.getD (utf8 "80")
        path := if exampleUrl.path = [] then utf8 "/" else exampleUrl.path } :=
  parseUrl_text exampleUrl unambiguous_exampleUrl

/-! ## The request -/

/-- `std::to_chars` of a number into a buffer, and the part of the buffer that is appended after it:
a number that does not fit leaves the whole buffer as it was. -/
def toChars (buf : Vector UInt8 16) (n : ℕ) : List UInt8 :=
  if (decimal n).length ≤ 16 then decimal n else buf.toList

/-- The HTTP request. -/
def request (buf : Vector UInt8 16) (pu : ParsedUrl) (jsonBody : List UInt8) : List UInt8 :=
  let req := utf8 "POST "
  let req := req ++ pu.path
  let req := req ++ utf8 " HTTP/1.0\r\n"
  let req := req ++ utf8 "Host: "
  let req := req ++ pu.host
  let req := req ++ utf8 "\r\n"
  let req := req ++ utf8 "Content-Type: application/json\r\n"
  let req := req ++ utf8 "Content-Length: "
  let req := req ++ toChars buf jsonBody.length
  let req := req ++ utf8 "\r\n"
  let req := req ++ utf8 "Connection: close\r\n"
  let req := req ++ utf8 "\r\n"
  req ++ jsonBody

/-- The loop that sends the request from the byte `sent` on, with what the calls of `send` return:
what is sent.  After the last of the calls the process has ended. -/
def sendLoop (req : List UInt8) (sent : ℕ) : List ℤ → List UInt8
  | [] => []
  | n :: answers =>
    if sent < req.length then
      if n ≤ 0 then []
      else (req.drop sent).take n.toNat ++ sendLoop req (sent + n.toNat) answers
    else []

/-- What the system answers to a post: whether the host is found, a socket is there and the
connection is made, and what the calls of `send` return; and what is in the buffer on the stack. -/
structure Network where
  resolves : Bool
  hasSocket : Bool
  connects : Bool
  answers : List ℤ
  buf : Vector UInt8 16

/-- `do_http_post`: what the peer gets. -/
def doHttpPost (net : Network) (webhookUrl jsonBody : List UInt8) : List UInt8 :=
  let pu := parseUrl webhookUrl
  if pu.host = [] then []
  else if !net.resolves then []
  else if !net.hasSocket then []
  else if net.connects then sendLoop (request net.buf pu jsonBody) 0 net.answers
  else []

/-! ## The peer -/

/-- The end of a line. -/
def crlf : HttpMessage.LineEnd UInt8 := ⟨13, 10⟩

/-- The length that the header gives for the body. -/
def contentLength (lines : List (List UInt8)) : Option ℕ :=
  (lines.find? fun l => utf8 "Content-Length: " <+: l).bind fun l => digitsText? (l.drop 16)

/-- The lines of the request. -/
def requestLines (pu : ParsedUrl) (length : ℕ) : List (List UInt8) :=
  [utf8 "POST " ++ pu.path ++ utf8 " HTTP/1.0", utf8 "Host: " ++ pu.host,
    utf8 "Content-Type: application/json", utf8 "Content-Length: " ++ decimal length,
    utf8 "Connection: close"]

lemma request_eq (buf : Vector UInt8 16) (pu : ParsedUrl) {jsonBody : List UInt8}
    (h : jsonBody.length < 10 ^ 16) :
    request buf pu jsonBody =
      HttpMessage.write crlf (requestLines pu jsonBody.length) jsonBody := by
  have hfits : toChars buf jsonBody.length = decimal jsonBody.length :=
    if_pos (length_decimal_le (by decide) h)
  have hversion : utf8 " HTTP/1.0\r\n" = utf8 " HTTP/1.0" ++ [13, 10] := by decide +kernel
  have htype : utf8 "Content-Type: application/json\r\n" =
      utf8 "Content-Type: application/json" ++ [13, 10] := by decide +kernel
  have hclose : utf8 "Connection: close\r\n" = utf8 "Connection: close" ++ [13, 10] := by
    decide +kernel
  have hend : utf8 "\r\n" = [13, 10] := by decide +kernel
  simp only [request, requestLines, HttpMessage.write, HttpMessage.lines, crlf, hfits, hversion,
    htype, hclose, hend, List.flatMap_cons, List.flatMap_nil, List.append_assoc, List.append_nil,
    List.cons_append, List.nil_append]

lemma contentLength_requestLines (pu : ParsedUrl) (length : ℕ) :
    contentLength (requestLines pu length) = some length := by
  have hfirst : ¬utf8 "Content-Length: " <+: utf8 "POST " ++ pu.path ++ utf8 " HTTP/1.0" := by
    have hp : utf8 "POST " = 80 :: (utf8 "POST ").tail := by decide +kernel
    have hc : utf8 "Content-Length: " = 67 :: (utf8 "Content-Length: ").tail := by decide +kernel
    rw [hp, hc, List.cons_append, List.cons_append, List.cons_prefix_cons]
    exact fun h => absurd h.1 (by decide)
  have hhost : ¬utf8 "Content-Length: " <+: utf8 "Host: " ++ pu.host := by
    have hp : utf8 "Host: " = 72 :: (utf8 "Host: ").tail := by decide +kernel
    have hc : utf8 "Content-Length: " = 67 :: (utf8 "Content-Length: ").tail := by decide +kernel
    rw [hp, hc, List.cons_append, List.cons_prefix_cons]
    exact fun h => absurd h.1 (by decide)
  have htype : ¬utf8 "Content-Length: " <+: utf8 "Content-Type: application/json" := by
    decide +kernel
  have hdrop : (utf8 "Content-Length: " ++ decimal length).drop 16 = decimal length :=
    List.drop_left' (by decide +kernel)
  rw [contentLength, requestLines, List.find?_cons_of_neg (by simpa using hfirst),
    List.find?_cons_of_neg (by simpa using hhost), List.find?_cons_of_neg (by simpa using htype),
    List.find?_cons_of_pos (by simp), Option.bind_some, hdrop, digitsText_decimal]

/-- What is sent is the first part of the request. -/
lemma sendLoop_prefix (req : List UInt8) (sent : ℕ) (answers : List ℤ) :
    sendLoop req sent answers <+: req.drop sent := by
  induction answers generalizing sent with
  | nil => exact List.nil_prefix
  | cons n answers ih =>
    rw [sendLoop]
    split_ifs
    · exact List.nil_prefix
    · conv_rhs => rw [← List.take_append_drop n.toNat (req.drop sent), List.drop_drop]
      exact (List.prefix_append_right_inj _).mpr (ih _)
    · exact List.nil_prefix

/-- A line of the request is not empty and has no line break in it. -/
lemma requestLines_clean {pu : ParsedUrl} (hhost : crlf.cr ∉ pu.host) (hpath : crlf.cr ∉ pu.path)
    (length : ℕ) :
    (∀ l ∈ requestLines pu length, l ≠ []) ∧ ∀ l ∈ requestLines pu length, crlf.cr ∉ l := by
  have hdigits : crlf.cr ∉ decimal length := by
    intro hmem
    exact absurd (isDigit_of_mem_decimal hmem) (by decide)
  have hne {l l' : List UInt8} (h : l ≠ []) : l ++ l' ≠ [] := by simp [h]
  constructor
  · simp only [requestLines, List.forall_mem_cons, List.not_mem_nil, false_implies, implies_true,
      and_true]
    exact ⟨hne (hne (by decide +kernel)), hne (by decide +kernel), by decide +kernel,
      hne (by decide +kernel), by decide +kernel⟩
  · simp only [requestLines, List.forall_mem_cons, List.not_mem_nil, false_implies, implies_true,
      and_true, List.mem_append, not_or]
    exact ⟨⟨⟨by decide +kernel, hpath⟩, by decide +kernel⟩, ⟨by decide +kernel, hhost⟩,
      by decide +kernel, ⟨by decide +kernel, hdigits⟩, by decide +kernel⟩

/-- When no call of `send` fails and they take enough, the request is sent in full. -/
lemma sendLoop_eq_drop (req : List UInt8) {sent : ℕ} {answers : List ℤ}
    (hpos : ∀ n ∈ answers, 0 < n) (hsum : (req.length : ℤ) ≤ sent + answers.sum) :
    sendLoop req sent answers = req.drop sent := by
  induction answers generalizing sent with
  | nil =>
    rw [List.sum_nil, add_zero, Int.ofNat_le] at hsum
    rw [sendLoop, List.drop_eq_nil_of_le hsum]
  | cons n answers ih =>
    rw [List.forall_mem_cons] at hpos
    rw [sendLoop]
    split_ifs with hmore hfail
    · omega
    · have hrest : (req.length : ℤ) ≤ (sent + n.toNat : ℕ) + answers.sum := by
        rw [List.sum_cons] at hsum
        have htoNat : (n.toNat : ℤ) = n := Int.toNat_of_nonneg hpos.1.le
        push_cast
        omega
      rw [ih hpos.2 hrest, ← List.drop_drop, List.take_append_drop]
    · rw [List.drop_eq_nil_of_le (Nat.not_lt.mp hmore)]

/-- What the peer gets is the first part of the request. -/
lemma doHttpPost_prefix (net : Network) (webhookUrl jsonBody : List UInt8) :
    doHttpPost net webhookUrl jsonBody <+: request net.buf (parseUrl webhookUrl) jsonBody := by
  unfold doHttpPost
  dsimp only
  split_ifs
  · exact List.nil_prefix
  · exact List.nil_prefix
  · exact List.nil_prefix
  · exact sendLoop_prefix _ 0 _
  · exact List.nil_prefix

/-- What the peer reads of a post: the lines of a request and its body. -/
def peerReads (net : Network) (webhookUrl jsonBody : List UInt8) :
    Option (List (List UInt8) × List UInt8) :=
  HttpMessage.read crlf contentLength (doHttpPost net webhookUrl jsonBody)

/-- The peer reads the request when all of it was sent, and nothing otherwise. -/
lemma peerReads_eq {u : Url} (h : u.Unambiguous) (hhost : crlf.cr ∉ u.host)
    (hpath : crlf.cr ∉ u.path) (net : Network) {jsonBody : List UInt8}
    (hsize : jsonBody.length < 10 ^ 16) :
    peerReads net u.text jsonBody =
      if doHttpPost net u.text jsonBody = request net.buf (parseUrl u.text) jsonBody then
        some (requestLines (parseUrl u.text) jsonBody.length, jsonBody)
      else none := by
  have hparse := parseUrl_text u h
  have hclean : crlf.cr ∉ (parseUrl u.text).host ∧ crlf.cr ∉ (parseUrl u.text).path := by
    rw [hparse]
    refine ⟨hhost, ?_⟩
    dsimp only
    split_ifs
    · decide +kernel
    · exact hpath
  obtain ⟨hne, hcr⟩ := requestLines_clean hclean.1 hclean.2 jsonBody.length
  have hlength := contentLength_requestLines (parseUrl u.text) jsonBody.length
  have hpre := doHttpPost_prefix net u.text jsonBody
  rw [request_eq _ _ hsize] at hpre ⊢
  rw [peerReads]
  split_ifs with hall
  · rw [hall]
    exact HttpMessage.read_write hne hcr hlength
  · exact HttpMessage.read_of_prefix hne hcr hlength hpre hall

/-- **The peer reads the alert or nothing.**  Let the address have a host and a path without line
breaks.  Whatever the network does, and however `send` cuts the request, what the peer reads by the
lines and the `Content-Length` of what it got is the whole request, for the path and the host of the
address, and its body is JSON whose one value is the alert.  It reads it whenever the connection is
made, no call of `send` fails and together they take all of it. -/
theorem peer_reads_alert_or_nothing (u : Url) (h : u.Unambiguous) (hhost : crlf.cr ∉ u.host)
    (hpath : crlf.cr ∉ u.path) (net : Network) (level : AlertLevel) (name message : String)
    (tsNs : UInt64)
    (hsize : (buildJson level (utf8 name) (utf8 message) tsNs).length < 10 ^ 16) :
    (∀ lines body,
        peerReads net u.text (buildJson level (utf8 name) (utf8 message) tsNs) =
            some (lines, body) →
          lines = [utf8 "POST " ++ (if u.path = [] then utf8 "/" else u.path) ++ utf8 " HTTP/1.0",
            utf8 "Host: " ++ u.host, utf8 "Content-Type: application/json",
            utf8 "Content-Length: " ++ decimal body.length, utf8 "Connection: close"] ∧
          ∃ text : String, utf8 text = body ∧
            ∀ v, Json.Document text.toList v ↔ v = alertValue level name message tsNs) ∧
      (u.host ≠ [] → net.resolves = true → net.hasSocket = true → net.connects = true →
        (∀ n ∈ net.answers, 0 < n) →
        ((request net.buf (parseUrl u.text)
          (buildJson level (utf8 name) (utf8 message) tsNs)).length : ℤ) ≤ net.answers.sum →
        (peerReads net u.text (buildJson level (utf8 name) (utf8 message) tsNs)).isSome) := by
  have hparse := parseUrl_text u h
  rw [peerReads_eq h hhost hpath net hsize]
  constructor
  · intro lines body hread
    obtain ⟨-, hread⟩ := Option.ite_none_right_eq_some.mp hread
    obtain ⟨rfl, rfl⟩ := Prod.mk.inj (Option.some.inj hread)
    refine ⟨by rw [requestLines, hparse], alertText level name message tsNs,
      (buildJson_eq ..).symm, fun v => ?_⟩
    have hdoc := document_alertText level name message tsNs
    constructor
    · intro hv
      exact hv.unique hdoc
    · rintro rfl
      exact hdoc
  · intro hne hresolves hsocket hconnects hpos hsum
    have hhost' : (parseUrl u.text).host ≠ [] := by rwa [hparse]
    have hall : doHttpPost net u.text (buildJson level (utf8 name) (utf8 message) tsNs) =
        request net.buf (parseUrl u.text)
          (buildJson level (utf8 name) (utf8 message) tsNs) := by
      unfold doHttpPost
      dsimp only
      rw [if_neg hhost', hresolves, hsocket, hconnects]
      exact sendLoop_eq_drop _ hpos (by simpa using hsum)
    rw [if_pos hall]
    rfl

/-- A network that takes the request in two pieces. -/
def exampleNetwork : Network where
  resolves := true
  hasSocket := true
  connects := true
  answers := [10, 1000]
  buf := .replicate 16 0

theorem peer_reads_alert_example :
    (peerReads exampleNetwork exampleUrl.text
      (buildJson .warn (utf8 "n") (utf8 "m") 7)).isSome = true :=
  (peer_reads_alert_or_nothing exampleUrl unambiguous_exampleUrl (by decide +kernel)
    (by decide +kernel) exampleNetwork .warn "n" "m" 7 (by decide +kernel)).2 (by decide +kernel)
    rfl rfl rfl (by decide) (by decide +kernel)

end Alerting

end QuantTrade
