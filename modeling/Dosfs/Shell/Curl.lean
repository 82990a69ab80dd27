import Dosfs.Libc.Snprintf
import Dosfs.Net.SendResult
import Dosfs.Net.TcpStream
import Dosfs.Tools.CpuText

/-!
# Fetching a page

A translation of `cmd_curl` of `shell/shell.c` over the network stack. Which host, port and
path a URL stands for, what is asked for there, and how what is printed is related to what the
server sends.
-/

namespace Dosfs

open Foundation Fuelled

/-! ## The command -/

structure Url where
  host : List UInt8
  port : Nat
  path : List UInt8
  deriving DecidableEq

/-- `"http://"` and `"https://"`, which are both dropped. -/
def schemes : List (List UInt8) :=
  [[0x68, 0x74, 0x74, 0x70, 0x3A, 0x2F, 0x2F], [0x68, 0x74, 0x74, 0x70, 0x73, 0x3A, 0x2F, 0x2F]]

def stripScheme (p : List UInt8) : List UInt8 :=
  match schemes.find? (·.isPrefixOf p) with
  | some scheme => p.drop scheme.length
  | none => p

/-- The digits of a port, in 16 bits, and the rest of the text. -/
def portLoop (pp : Nat) : List UInt8 → Nat × List UInt8
  | c :: p => if isDigit c then portLoop ((pp * 10 + (c.toNat - 0x30)) % 2 ^ 16) p else (pp, c :: p)
  | [] => (pp, [])

/-- The port behind a host; a number of zero does not count. -/
def urlPort : List UInt8 → Nat × List UInt8
  | 0x3A :: p =>
      let (pp, p) := portLoop 0 p
      (if pp > 0 then pp else 80, p)
  | p => (80, p)

/-- The path, when the text goes on with one. -/
def urlPath : List UInt8 → List UInt8
  | 0x2F :: p => 0x2F :: p
  | _ => [0x2F]

def parseUrl (args : List UInt8) : Url :=
  let (host, p) := copyToken (fun c => c == 0x3A || c == 0x2F) 63 (stripScheme args)
  let (port, p) := urlPort p
  { host, port, path := urlPath p }

/-- `"GET %s HTTP/1.0\r\nHost: %s\r\n\r\n"` -/
def curlFormat : CString :=
  CString.ofBuffer (ascii ['G', 'E', 'T', ' ', '%', 's', ' ', 'H', 'T', 'T', 'P', '/', '1', '.',
    '0', '\r', '\n', 'H', 'o', 's', 't', ':', ' ', '%', 's', '\r', '\n', '\r', '\n'])

def curlArgs (url : Url) (k : Nat) : VaArg :=
  ⟨0, some (CString.ofBuffer (if k = 0 then url.path else url.host))⟩

/-- The request in its buffer of 256 bytes, and its length. -/
def curlRequest (req : Memory) (url : Url) : Option (Memory × Int32) :=
  snprintf req 256 curlFormat (curlArgs url)

inductive CurlResult
  | usage
  | connectionFailed
  | response (chunks : List (List UInt8))
  deriving DecidableEq

section

variable (env : Env) (poll : NetM Unit) (rounds : Nat)

/-- The loop over the response. In each round a key may have been pressed, which stops it; the
chunks are what `tcp_recv` has returned, each printed up to its first NUL. -/
def curlReceive : Nat → List Bool → List (List UInt8) → NetM (List (List UInt8))
  | 0, _, _ => failure
  | fuel + 1, keys, chunks =>
      if keys.headD false then return chunks
      else do
        match ← tcpRecv env poll rounds 4095 with
        | none => return chunks
        | some chunk =>
            curlReceive fuel keys.tail (if chunk = [] then chunks else chunks ++ [chunk])

def curlFetch (keys : List Bool) (url : Url) : NetM CurlResult := do
  match curlRequest env.garbage url with
  | none => failure
  | some (req, rlen) =>
      let _ ← tcpSendData env poll rounds req (rlen.toUInt32.toNat % 2 ^ 16)
      let chunks ← curlReceive env poll rounds rounds keys []
      tcpClose env poll rounds
      return .response chunks

def cmdCurl (keys : List Bool) (args : List UInt8) : NetM CurlResult := do
  let args := args.dropWhile (· == 0x20)
  if args = [] then return .usage
  else
    let url := parseUrl args
    let r ← tcpConnect env poll rounds (CString.ofBuffer url.host) url.port
    if r ≠ 0 then return .connectionFailed
    else curlFetch env poll rounds keys url

end

/-- What is handed to `vga_puts` of the response. -/
def curlPrinted (chunks : List (List UInt8)) : List UInt8 :=
  (chunks.map fun chunk => (CString.ofBuffer chunk).bytes).flatten

/-- `total`, which is printed at the end. -/
def curlReceived (chunks : List (List UInt8)) : Nat := (chunks.map List.length).sum

/-! ## URLs -/

/-- The ways to write a URL: with or without a scheme, a port and a path. -/
inductive WritesUrl : List UInt8 → Url → Prop
  | mk (scheme : List UInt8) (hscheme : scheme = [] ∨ scheme ∈ schemes) (host : List UInt8)
      (hhost : ∀ c ∈ host, c ≠ 0 ∧ c ≠ 0x20 ∧ c ≠ 0x3A ∧ c ≠ 0x2F)
      (hlength : host ≠ [] ∧ host.length ≤ 63) (port : Option Nat)
      (path : List UInt8) (hpath : ∀ c ∈ path, c ≠ 0) (hroot : path ≠ [] → path.head? = some 0x2F) :
      WritesUrl
        (scheme ++ (host ++ ((port.elim [] fun n => 0x3A :: numeral 10 n) ++ path)))
        { host
          port := port.elim 80 fun n => if n % 2 ^ 16 = 0 then 80 else n % 2 ^ 16
          path := if path = [] then [0x2F] else path }

/-- The request for a URL. -/
def requestText (url : Url) : List UInt8 :=
  ascii ['G', 'E', 'T', ' '] ++ (url.path ++ (ascii [' ', 'H', 'T', 'T', 'P', '/', '1', '.', '0',
    '\r', '\n', 'H', 'o', 's', 't', ':', ' '] ++ (url.host ++ ascii ['\r', '\n', '\r', '\n'])))

theorem portLoop_append {digits rest : List UInt8} (hdigits : ∀ c ∈ digits, isDigit c = true)
    (hrest : ∀ c ∈ rest.head?, isDigit c = false) (pp : Nat) :
    portLoop (pp % 2 ^ 16) (digits ++ rest) =
      (digits.foldl (fun n c => 10 * n + (c.toNat - 0x30)) pp % 2 ^ 16, rest) := by
  induction digits generalizing pp with
  | nil =>
      cases rest with
      | nil => rfl
      | cons c rest => rw [List.nil_append, portLoop, hrest c rfl, if_neg Bool.false_ne_true]; rfl
  | cons c digits ih =>
      obtain ⟨hc, hdigits⟩ := List.forall_mem_cons.mp hdigits
      have hnext : (pp % 2 ^ 16 * 10 + (c.toNat - 0x30)) % 2 ^ 16 =
          (10 * pp + (c.toNat - 0x30)) % 2 ^ 16 := by omega
      rw [List.cons_append, portLoop, if_pos hc, hnext, ih hdigits, List.foldl_cons]

theorem urlPort_numeral (n : Nat) {rest : List UInt8}
    (hrest : ∀ c ∈ rest.head?, isDigit c = false) :
    urlPort (0x3A :: (numeral 10 n ++ rest)) =
      (if n % 2 ^ 16 = 0 then 80 else n % 2 ^ 16, rest) := by
  have hdigits : ∀ c ∈ numeral 10 n, isDigit c = true := fun c hc =>
    isDigit_of_mem (decimal_digits n c hc)
  have hvalue := leadingNat_numeral n
  rw [leadingNat, List.takeWhile_eq_self_iff.mpr hdigits] at hvalue
  have hloop := portLoop_append hdigits hrest 0
  rw [Nat.zero_mod, hvalue] at hloop
  rw [urlPort, hloop]
  dsimp only
  congr 1
  split_ifs <;> omega

theorem urlPath_eq {path : List UInt8} (hroot : path ≠ [] → path.head? = some 0x2F) :
    urlPath path = if path = [] then [0x2F] else path := by
  cases path with
  | nil => rfl
  | cons c path =>
      obtain rfl := Option.some.inj (hroot (List.cons_ne_nil _ _))
      rfl

/-- The letters of a scheme. -/
theorem letters_of_mem {scheme : List UInt8} (hscheme : scheme ∈ schemes) :
    ∃ letters : List UInt8, (∀ c ∈ letters, c ≠ 0x3A ∧ c ≠ 0x2F) ∧
      scheme = letters ++ [0x3A, 0x2F, 0x2F] := by
  rcases List.mem_cons.mp hscheme with rfl | hscheme
  · exact ⟨[0x68, 0x74, 0x74, 0x70], by simp, rfl⟩
  · rw [List.mem_singleton.mp hscheme]
    exact ⟨[0x68, 0x74, 0x74, 0x70, 0x73], by simp, rfl⟩

/-- A host is not taken for a scheme: behind the first colon there is the number of a port. -/
theorem stripScheme_host {host rest : List UInt8} (hhost : ∀ c ∈ host, c ≠ 0x3A ∧ c ≠ 0x2F)
    (hhead : ∀ c ∈ rest.head?, c = 0x3A ∨ c = 0x2F)
    (hrest : ∀ rest', rest ≠ 0x3A :: 0x2F :: rest') :
    stripScheme (host ++ rest) = host ++ rest := by
  have hno : schemes.find? (·.isPrefixOf (host ++ rest)) = none := by
    refine List.find?_eq_none.mpr fun scheme hscheme hbegins => ?_
    obtain ⟨after, hafter⟩ := List.isPrefixOf_iff_prefix.mp hbegins
    obtain ⟨letters, hletters, rfl⟩ := letters_of_mem hscheme
    have hcolon (c : UInt8) (hc : c ∈ letters) : (c != 0x3A) = true := by
      simpa using (hletters c hc).1
    have hplain (c : UInt8) (hc : c ∈ host) : (c != 0x3A) = true := by
      simpa using (hhost c hc).1
    have hfront := congrArg (List.takeWhile (· != 0x3A)) hafter
    have hback := congrArg (List.dropWhile (· != 0x3A)) hafter
    rw [List.append_assoc, List.takeWhile_append_of_pos hcolon,
      List.takeWhile_append_of_pos hplain] at hfront
    rw [List.append_assoc, List.dropWhile_append_of_pos hcolon,
      List.dropWhile_append_of_pos hplain] at hback
    cases rest with
    | nil => exact absurd hback (List.cons_ne_nil _ _)
    | cons c rest =>
        rcases hhead c rfl with rfl | rfl
        · exact hrest _ hback.symm
        · have hslash : (0x2F : UInt8) ∈ letters ++ [] := by
            rw [show letters ++ [] = _ from hfront]
            exact List.mem_append_right _ List.mem_cons_self
          exact (hletters _ (List.append_nil letters ▸ hslash)).2 rfl
  rw [stripScheme, hno]

/-- A scheme is dropped. -/
theorem stripScheme_append {scheme : List UInt8} (hscheme : scheme ∈ schemes) (p : List UInt8) :
    stripScheme (scheme ++ p) = p := by
  rcases List.mem_cons.mp hscheme with rfl | hscheme
  · rfl
  · rw [List.mem_singleton.mp hscheme]
    rfl

/-- A URL is parsed to the host, the port and the path that it was written for. -/
theorem parseUrl_of_writes {text : List UInt8} {url : Url} (h : WritesUrl text url) :
    parseUrl text = url := by
  obtain ⟨scheme, hscheme, host, hhost, hlength, port, path, hpath, hroot⟩ := h
  have hstop (c : UInt8) (hc : c ∈ host) : (c == 0x3A || c == 0x2F) = false := by
    simpa using (hhost c hc).2.2
  have hslash (c : UInt8) (hc : c ∈ path.head?) : c = 0x2F := by
    cases path with
    | nil => cases hc
    | cons d path =>
        have hd := hroot (List.cons_ne_nil d path)
        rw [hd] at hc
        exact (Option.some.inj hc).symm
  have hdigit (c : UInt8) (hc : c ∈ path.head?) : isDigit c = false := by
    rw [hslash c hc]
    rfl
  -- behind the host comes the colon of a port or the slash of a path
  have hhead : ∀ c ∈ ((port.elim [] fun n => 0x3A :: numeral 10 n) ++ path).head?,
      c = 0x3A ∨ c = 0x2F := by
    cases port with
    | none => exact fun c hc => .inr (hslash c hc)
    | some n => exact fun c hc => .inl (Option.some.inj hc).symm
  have hstrip : stripScheme (scheme ++ (host ++ ((port.elim [] fun n => 0x3A :: numeral 10 n) ++
      path))) = host ++ ((port.elim [] fun n => 0x3A :: numeral 10 n) ++ path) := by
    rcases hscheme with rfl | hscheme
    · rw [List.nil_append]
      refine stripScheme_host (fun c hc => (hhost c hc).2.2) hhead fun rest' heq => ?_
      cases port with
      | none =>
          have hcolon := hslash 0x3A (by rw [show path = _ from heq]; rfl)
          exact absurd hcolon (by decide)
      | some n =>
          obtain ⟨d, digits, hdigits⟩ := List.exists_cons_of_ne_nil
            (numeral_isNumeral (by decide : 2 ≤ 10) (by decide) n).nonempty
          have hd := isDigit_of_mem (decimal_digits n d (hdigits ▸ List.mem_cons_self))
          rw [Option.elim_some, hdigits] at heq
          obtain ⟨rfl, -⟩ := List.cons.inj (List.cons.inj heq).2
          exact absurd hd (by decide)
    · exact stripScheme_append hscheme _
  have hcopy : copyToken (fun c => c == 0x3A || c == 0x2F) 63
      (host ++ ((port.elim [] fun n => 0x3A :: numeral 10 n) ++ path)) =
      (host, (port.elim [] fun n => 0x3A :: numeral 10 n) ++ path) := by
    refine copyToken_append hlength.2 hstop fun c hc => ?_
    rcases hhead c hc with rfl | rfl <;> rfl
  rw [parseUrl, hstrip, hcopy]
  dsimp only
  cases port with
  | none =>
      have hport : urlPort path = (80, path) := by
        cases path with
        | nil => rfl
        | cons c path =>
            obtain rfl := hslash c rfl
            rfl
      rw [Option.elim_none, List.nil_append, hport, urlPath_eq hroot]
      rfl
  | some n =>
      rw [Option.elim_some, List.cons_append, urlPort_numeral n hdigit, urlPath_eq hroot]
      rfl

/-! ## The request -/

section

variable {args : Nat → VaArg} {text fmt : List UInt8}

theorem expansion_append (htext : ∀ c ∈ text, c ≠ 0x25) (fmt : List UInt8) (k : Nat) :
    expansion args (text ++ fmt) k = text ++ expansion args fmt k := by
  induction text with
  | nil => rfl
  | cons c text ih =>
      obtain ⟨hc, htext⟩ := List.forall_mem_cons.mp htext
      rw [List.cons_append, expansion_plain hc, ih htext, List.cons_append]

theorem Complete.append (htext : ∀ c ∈ text, c ≠ 0x25) (hfmt : Complete fmt) :
    Complete (text ++ fmt) := by
  induction text with
  | nil => exact hfmt
  | cons c text ih =>
      obtain ⟨hc, htext⟩ := List.forall_mem_cons.mp htext
      exact .plain hc (ih htext)

end

theorem curlFormat_bytes :
    curlFormat.bytes = ascii ['G', 'E', 'T', ' '] ++ (0x25 :: 0x73 :: (ascii [' ', 'H', 'T', 'T',
      'P', '/', '1', '.', '0', '\r', '\n', 'H', 'o', 's', 't', ':', ' '] ++
      (0x25 :: 0x73 :: (ascii ['\r', '\n', '\r', '\n'] ++ [])))) :=
  CString.ofBuffer_bytes _ (by decide +kernel)

theorem complete_curlFormat : Complete curlFormat.bytes := by
  rw [curlFormat_bytes]
  exact .append (by simp [ascii]) (.conversion 0x73 (.append (by simp [ascii]) (.conversion 0x73
    (.append (by simp [ascii]) .nil))))

theorem WritesUrl.dropWhile {text : List UInt8} {url : Url} (h : WritesUrl text url) :
    text.dropWhile (· == 0x20) = text := by
  obtain ⟨scheme, hscheme, host, hhost, ⟨hsome, -⟩, port, path, hpath, hroot⟩ := h
  obtain ⟨c, rest, hcons, hc⟩ : ∃ c rest, scheme ++ (host ++ ((port.elim [] fun n =>
      0x3A :: numeral 10 n) ++ path)) = c :: rest ∧ c ≠ 0x20 := by
    rcases hscheme with rfl | hscheme
    · obtain ⟨c, host, rfl⟩ := List.exists_cons_of_ne_nil hsome
      exact ⟨c, _, rfl, (hhost c List.mem_cons_self).2.1⟩
    · rcases List.mem_cons.mp hscheme with rfl | hscheme
      · exact ⟨0x68, _, rfl, by decide⟩
      · rw [List.mem_singleton.mp hscheme]
        exact ⟨0x68, _, rfl, by decide⟩
  rw [hcons, List.dropWhile_cons, if_neg (by simpa using hc)]

/-- The parts of a URL that has been written somewhere are texts. -/
theorem WritesUrl.noNul {text : List UInt8} {url : Url} (h : WritesUrl text url) :
    (∀ c ∈ url.host, c ≠ 0) ∧ ∀ c ∈ url.path, c ≠ 0 := by
  obtain ⟨scheme, hscheme, host, hhost, hlength, port, path, hpath, hroot⟩ := h
  refine ⟨fun c hc => (hhost c hc).1, fun c hc => ?_⟩
  dsimp only at hc
  split at hc
  next => exact List.mem_singleton.mp hc ▸ by decide
  next => exact hpath c hc

theorem expansion_curl {url : Url} (hhost : ∀ c ∈ url.host, c ≠ 0) (hpath : ∀ c ∈ url.path, c ≠ 0) :
    expansion (curlArgs url) curlFormat.bytes 0 = requestText url := by
  have hconversion (fmt : List UInt8) (k : Nat) : expansion (curlArgs url) (0x25 :: 0x73 :: fmt) k =
      (curlArgs url k).text.bytes ++ expansion (curlArgs url) fmt (k + 1) := rfl
  have hpathText : (curlArgs url 0).text.bytes = url.path := CString.ofBuffer_bytes _ hpath
  have hhostText : (curlArgs url 1).text.bytes = url.host := CString.ofBuffer_bytes _ hhost
  rw [curlFormat_bytes, expansion_append (by simp [ascii]), hconversion,
    expansion_append (by simp [ascii]), hconversion, expansion_append (by simp [ascii]),
    hpathText, hhostText, expansion, List.append_nil]
  rfl

/-- The buffer holds what fits of the request, and its length is the one that is sent. -/
theorem curlRequest_eq {text : List UInt8} {url : Url} (h : WritesUrl text url) (req : Memory) :
    curlRequest req url = some (terminated req ((requestText url).take 255),
      (UInt32.ofNat (min 255 (requestText url).length)).toInt32) := by
  have hexpansion := expansion_curl h.noNul.1 h.noNul.2
  rw [curlRequest, snprintf_complete (by decide) complete_curlFormat, hexpansion]
  rfl

theorem requestText_length (url : Url) :
    (requestText url).length = url.path.length + url.host.length + 25 := by
  simp [requestText, ascii]
  omega

/-! ## A page on the gateway -/

/-- The start page of the gateway. -/
def gatewayUrl : Url := ⟨gatewayHost.bytes, 80, [0x2F]⟩

theorem writes_gatewayUrl : WritesUrl gatewayHost.bytes gatewayUrl :=
  .mk [] (.inl rfl) gatewayHost.bytes (by decide +kernel) (by decide +kernel) none [] nofun
    (absurd rfl)

/-- It is fetched with a blank in front, and a key is pressed after two rounds. -/
def gatewayFetch : NetM CurlResult :=
  cmdCurl orderedEnv (netPoll orderedEnv 40 1) 40 [false, false, true]
    (List.replicate 1 0x20 ++ gatewayHost.bytes)

/-- The stack has polled once before. -/
def polledNet : Net := (outcome (performAll orderedEnv 40 1 [.poll]) startNet).2

theorem gatewayFetch_response :
    (outcome gatewayFetch polledNet).1 = some (.response [[1], [2]]) := by
  decide +kernel

theorem outcome_gatewayFetch :
    outcome gatewayFetch polledNet =
      (some (.response [[1], [2]]), (outcome gatewayFetch polledNet).2) := by
  rw [← gatewayFetch_response]

/-! ## A run of the command -/

section

variable {env : Env} {poll : NetM Unit} {rounds : Nat} {keys : List Bool}

/-- The calls that a command has made when it has printed a response. -/
theorem cmdCurl_response {args : List UInt8} {s s' : Net} {chunks : List (List UInt8)}
    (hrun : outcome (cmdCurl env poll rounds keys args) s = (some (.response chunks), s')) :
    ∃ url s₁ req rlen r s₂ s₃, url = parseUrl (args.dropWhile (· == 0x20)) ∧
      outcome (tcpConnect env poll rounds (CString.ofBuffer url.host) url.port) s = (some 0, s₁) ∧
      curlRequest env.garbage url = some (req, rlen) ∧
      outcome (tcpSendData env poll rounds req (rlen.toUInt32.toNat % 2 ^ 16)) s₁ = (some r, s₂) ∧
      outcome (curlReceive env poll rounds rounds keys []) s₂ = (some chunks, s₃) ∧
      outcome (tcpClose env poll rounds) s₃ = (some (), s') := by
  rw [cmdCurl] at hrun
  by_cases hargs : args.dropWhile (· == 0x20) = []
  · rw [if_pos hargs] at hrun
    cases hrun
  rw [if_neg hargs] at hrun
  obtain ⟨connected, s₁, hconnect, hrun⟩ := exists_outcome_of_bind hrun
  by_cases hzero : connected = 0
  swap
  · rw [if_pos hzero] at hrun
    cases hrun
  rw [if_neg (not_not.mpr hzero), curlFetch] at hrun
  rw [hzero] at hconnect
  cases hrequest : curlRequest env.garbage (parseUrl (args.dropWhile (· == 0x20))) with
  | none =>
      rw [hrequest] at hrun
      cases hrun
  | some request =>
      obtain ⟨req, rlen⟩ := request
      rw [hrequest] at hrun
      obtain ⟨r, s₂, hsend, hrun⟩ := exists_outcome_of_bind hrun
      obtain ⟨chunks', s₃, hreceive, hrun⟩ := exists_outcome_of_bind hrun
      obtain ⟨_, s₄, hclose, hrun⟩ := exists_outcome_of_bind hrun
      cases hrun
      exact ⟨_, s₁, req, rlen, r, s₂, s₃, rfl, hconnect, hrequest, hsend, hreceive, hclose⟩

/-! ## What is sent -/

/-- The request, in a buffer of its own. -/
def requestBuffer (url : Url) : Memory := fun k => (requestText url).getD k 0

/-- How much of the request is sent. -/
def requestLength (url : Url) : Nat := min 255 (requestText url).length

theorem loadList_requestBuffer (url : Url) :
    (requestBuffer url).loadList 0 (requestLength url) = (requestText url).take 255 := by
  refine List.ext_getElem (by simp [requestLength]) fun k hk hk' => ?_
  rw [List.length_take] at hk'
  simp only [Memory.loadList, List.getElem_map, List.getElem_range, List.getElem_take,
    requestBuffer, Nat.zero_add]
  exact List.getD_eq_getElem _ _ (by omega)

/-- The acknowledgement in a segment does not depend on its data. -/
theorem segmentBuilt_data (s : Net) (flags : UInt8) (data data' : Memory) (len : Nat) :
    segmentBuilt s flags data len = segmentBuilt s flags data' len := by
  simp only [segmentBuilt, TcpState.noteAck, tcpSegment_ackNum]

theorem tcpConnect_established {host : CString} {port : Nat} {s s' : Net}
    (hrun : outcome (tcpConnect env poll rounds host port) s = (some 0, s')) :
    s'.ts.state = .established := by
  have hopen (ip : Ip) (s s' : Net)
      (hrun : outcome (tcpOpen env poll rounds ip port) s = (some 0, s')) :
      s'.ts.state = .established := by
    rw [tcpOpen, outcome_modify_bind] at hrun
    obtain ⟨_, _, -, hrun⟩ := exists_outcome_of_bind hrun
    obtain ⟨deadline, _, -, hrun⟩ := exists_outcome_of_bind hrun
    obtain ⟨_, t, -, hrun⟩ := exists_outcome_of_bind hrun
    rw [outcome_get_bind] at hrun
    by_cases hstate : t.ts.state = .established
    · rw [if_pos hstate] at hrun
      cases hrun
      exact hstate
    · rw [if_neg hstate] at hrun
      cases hrun
  rw [tcpConnect] at hrun
  cases haddress : hostAddress host with
  | some ip =>
      rw [haddress] at hrun
      exact hopen ip s s' hrun
  | none =>
      rw [haddress] at hrun
      obtain ⟨found, t, -, hrun⟩ := exists_outcome_of_bind hrun
      cases found with
      | error _ => cases hrun
      | ok ip => exact hopen ip t s' hrun

theorem sentGrows_calls : ClosedCalls SentGrows where
  toClosed := SentGrows.closed
  call hstep := by
    cases hstep <;> exact List.prefix_refl _

theorem curlReceive_within {R : Net → Net → Prop} [IsPreorder Net R] (hC : ClosedCalls R)
    (hpoll : ∀ s, Within R s poll) (fuel : Nat) (keys : List Bool) (chunks : List (List UInt8))
    (s : Net) : Within R s (curlReceive env poll rounds fuel keys chunks) := by
  induction fuel generalizing keys chunks s with
  | zero => exact within_failure
  | succ fuel ih =>
      refine within_ite (fun _ => within_pure _) fun _ => ?_
      apply within_bind (tcpRecv_within hC hpoll)
      intro r s' _ _
      cases r with
      | none => exact within_pure _
      | some chunk => exact ih ..

/-- What was handed to the card has been since, and is still. -/
theorem HandedOver.mono {s s' s'' : Net} {data data' : Memory} {len : Nat}
    (h : HandedOver s s' data len) (hsent : s'.sent <+: s''.sent)
    (hdata : data.loadList 0 len = data'.loadList 0 len) : HandedOver s s'' data' len := by
  obtain ⟨frame, hframe, mac, segment, hip, hlength, hflags, hbytes⟩ := h
  obtain ⟨more, hmore⟩ := hsent
  refine ⟨frame, ?_, mac, segment, hip, hlength, hflags, hbytes.trans hdata⟩
  rw [← hmore, List.drop_append]
  exact List.mem_append_left _ hframe

end

/-- However a URL is written, `curl` connects to its host and port and, with the hardware
address of the next hop, hands one segment with the request to the card, as far as the
buffer holds it. -/
theorem curl_sends_request (env : Env) (rounds depth : Nat) (keys : List Bool) (blanks : Nat)
    {text : List UInt8} {url : Url} (hurl : WritesUrl text url) {s s' : Net}
    {chunks : List (List UInt8)}
    (hrun : outcome (cmdCurl env (netPoll env rounds depth) rounds keys
      (List.replicate blanks 0x20 ++ text)) s = (some (.response chunks), s')) :
    ∃ s₁, outcome (tcpConnect env (netPoll env rounds depth) rounds (CString.ofBuffer url.host)
        url.port) s = (some 0, s₁) ∧
      (∀ mac s₂, Resolves env rounds depth s₁.tcpDstIp
          (segmentBuilt s₁ dataFlags (requestBuffer url) (requestLength url)) mac s₂ →
        HandedOver s₁ s' (requestBuffer url) (requestLength url)) ∧
      ((requestBuffer url).loadList 0 (requestLength url) = requestText url ↔
        url.path.length + url.host.length ≤ 230) := by
  have htext : (List.replicate blanks 0x20 ++ text).dropWhile (· == 0x20) = text := by
    rw [List.dropWhile_append_of_pos fun c hc => by simp [List.eq_of_mem_replicate hc]]
    exact hurl.dropWhile
  obtain ⟨_, s₁, req, rlen, r, s₂, s₃, rfl, hconnect, hrequest, hsend, hreceive, hclose⟩ :=
    cmdCurl_response hrun
  rw [htext, parseUrl_of_writes hurl] at hconnect hrequest
  have hlength := requestText_length url
  refine ⟨s₁, hconnect, fun mac t hresolves => ?_, ?_⟩
  · -- the request is sent first, and what was sent stays so
    rw [curlRequest_eq hurl] at hrequest
    cases hrequest
    have hlen : (UInt32.ofNat (min 255 (requestText url).length)).toNat % 2 ^ 16 =
        requestLength url := by
      rw [UInt32.toNat_ofNat', requestLength]
      omega
    rw [UInt32.toUInt32_toInt32, hlen] at hsend
    have hout := (tcpSendData_established (tcpConnect_established hconnect) hsend).2
    have hhanded := tcpSendSeg_handsOver (netPoll_polls env rounds depth)
      (netPoll_within KeepsPeer.closed env rounds depth)
      (by rw [requestLength]; omega) (segmentBuilt_data .. ▸ hresolves) hout
    have hpoll := netPoll_within SentGrows.closed env rounds depth
    have hreceived : Within SentGrows s₂ (curlReceive env (netPoll env rounds depth) rounds rounds
      keys []) := curlReceive_within sentGrows_calls hpoll rounds keys [] s₂
    have hclosed : Within SentGrows s₃ (tcpClose env (netPoll env rounds depth) rounds) :=
      tcpClose_within sentGrows_calls hpoll
    rw [Within, hreceive] at hreceived
    rw [Within, hclose] at hclosed
    refine hhanded.1.mono (hreceived.trans hclosed) ?_
    rw [loadList_requestBuffer, requestLength, ← List.length_take, loadList_terminated]
  · rw [loadList_requestBuffer, List.take_eq_self_iff]
    omega

theorem curl_sends_request_gateway :
    ∃ s₁, outcome (tcpConnect orderedEnv (netPoll orderedEnv 40 1) 40 (CString.ofBuffer
        gatewayUrl.host) 80) polledNet = (some 0, s₁) ∧
      HandedOver s₁ (outcome gatewayFetch polledNet).2 (requestBuffer gatewayUrl)
        (requestLength gatewayUrl) := by
  obtain ⟨s₁, hconnect, hsent, -⟩ := curl_sends_request orderedEnv 40 1 [false, false, true] 1
    writes_gatewayUrl outcome_gatewayFetch
  have hcached : arpLookup s₁.arpCache (routeIp s₁.tcpDstIp) = some gatewayMac := by
    rw [show s₁ = _ from (congrArg Prod.snd hconnect).symm]
    decide +kernel
  exact ⟨s₁, hconnect, hsent gatewayMac _ (outcome_arpResolve_of_cached hcached)⟩

/-! ## What is printed -/

section

variable {env : Env} {poll : NetM Unit} {rounds : Nat} {s : Net}
variable (hpoll : ∀ s, Within SameReturned s poll)

include hpoll

/-- The chunks are what the connection has returned. -/
theorem curlReceive_returned (fuel : Nat) (keys : List Bool) (chunks : List (List UInt8)) :
    Returns (fun chunks' s' => ∃ new, chunks' = chunks ++ new ∧
        s'.ts.talk.returned = s.ts.talk.returned ++ new.flatten ∧
        ∀ chunk ∈ new, 0 < chunk.length ∧ chunk.length ≤ 4095) s
      (curlReceive env poll rounds fuel keys chunks) := by
  induction fuel generalizing keys chunks s with
  | zero => exact returns_failure
  | succ fuel ih =>
      refine returns_ite (fun _ => returns_pure ⟨[], by simp⟩) fun _ => ?_
      refine returns_bind (tcpRecv_returned hpoll) fun r s₁ ⟨hreturned, hlength⟩ => ?_
      cases r with
      | none => exact returns_pure ⟨[], by simpa using hreturned⟩
      | some chunk =>
          refine (ih keys.tail _).mono fun chunks' s' ⟨new, hnew, hall, hchunks⟩ => ?_
          rw [hreturned, Option.getD_some] at hall
          by_cases hempty : chunk = []
          · rw [if_pos hempty] at hnew
            exact ⟨new, hnew, by simpa [hempty] using hall, hchunks⟩
          · rw [if_neg hempty] at hnew
            refine ⟨chunk :: new, by simpa using hnew, by simpa using hall, ?_⟩
            exact List.forall_mem_cons.mpr ⟨⟨List.length_pos_iff.mpr hempty, hlength⟩, hchunks⟩

end

/-- The chunks of a response are what the connection has returned since it was opened. -/
theorem cmdCurl_returned {env : Env} {rounds depth : Nat} {keys : List Bool} {args : List UInt8}
    {s s' : Net} {chunks : List (List UInt8)}
    (hrun : outcome (cmdCurl env (netPoll env rounds depth) rounds keys args) s =
      (some (.response chunks), s')) :
    s'.ts.talk.returned = chunks.flatten ∧
      ∀ chunk ∈ chunks, 0 < chunk.length ∧ chunk.length ≤ 4095 := by
  have hpoll := netPoll_within SameReturned.closed env rounds depth
  obtain ⟨url, s₁, req, rlen, r, s₂, s₃, -, hconnect, -, hsend, hreceive, hclose⟩ :=
    cmdCurl_response hrun
  have hopened := (tcpConnect_returned hpoll _ _ hconnect).2 (by decide)
  have hsent := (tcpSendData_returned hpoll).returns _ _ hsend
  have hclosed := (tcpClose_returned hpoll).returns _ _ hclose
  obtain ⟨new, hnew, hreturned, hchunks⟩ :=
    curlReceive_returned hpoll rounds keys [] _ _ hreceive
  obtain rfl : chunks = new := hnew
  refine ⟨?_, hchunks⟩
  have hstart : s₂.ts.talk.returned = [] := Eq.trans hsent hopened
  rw [hstart, List.nil_append] at hreturned
  exact Eq.trans hclosed hreturned

theorem cmdCurl_within {R : Net → Net → Prop} [IsPreorder Net R] (hC : ClosedCalls R) {env : Env}
    {rounds depth : Nat} {keys : List Bool} {args : List UInt8} {s : Net} :
    Within R s (cmdCurl env (netPoll env rounds depth) rounds keys args) := by
  have hpoll := netPoll_within hC.toClosed env rounds depth
  unfold cmdCurl
  refine within_ite (fun _ => within_pure _) fun _ => ?_
  refine within_bind (tcpConnect_within hC hpoll) fun _ _ _ _ => ?_
  refine within_ite (fun _ => within_pure _) fun _ => ?_
  unfold curlFetch
  split
  next => exact within_failure
  next =>
    refine within_bind (tcpSendData_within hC hpoll) fun _ _ _ _ => ?_
    refine within_bind (curlReceive_within hC hpoll rounds keys [] _) fun _ _ _ _ => ?_
    exact within_bind (tcpClose_within hC hpoll) fun _ _ _ _ => within_pure _

/-- A chunk is printed up to its first NUL, so all of a response is printed when it has none. -/
theorem curlPrinted_eq_iff (chunks : List (List UInt8)) :
    curlPrinted chunks = chunks.flatten ↔ ∀ c ∈ chunks.flatten, c ≠ 0 := by
  constructor
  · intro hall c hc
    rw [← hall, curlPrinted] at hc
    obtain ⟨text, htext, hc⟩ := List.mem_flatten.mp hc
    obtain ⟨chunk, -, rfl⟩ := List.mem_map.mp htext
    exact (CString.ofBuffer chunk).noNul c hc
  · intro hnone
    have hwhole (chunk : List UInt8) (hchunk : chunk ∈ chunks) :
        (CString.ofBuffer chunk).bytes = id chunk :=
      CString.ofBuffer_bytes chunk fun c hc => hnone c (List.mem_flatten.mpr ⟨chunk, hchunk, hc⟩)
    rw [curlPrinted, List.map_congr_left hwhole, List.map_id]

/-- What `curl` prints is the beginning of what the server sends, as long as every segment that
is stored comes in its place: all that `tcp_recv` returns before the first NUL of a call, at
most 8191 bytes in pieces of at most 4095. -/
theorem curl_shows_stream (env : Env) (rounds depth : Nat) (ops : List NetOp) (keys : List Bool)
    (args stream : List UInt8) {s' : Net} {chunks : List (List UInt8)}
    (hrun : outcome (cmdCurl env (netPoll env rounds depth) rounds keys args)
      (outcome (performAll env rounds depth ops) startNet).2 = (some (.response chunks), s'))
    (hplace : ∀ a ∈ s'.ts.talk.arrived, ∃ offset,
      a.CutAt s'.ts.talk.isn stream offset ∧ (a.Kept → offset = a.before)) :
    chunks.flatten <+: stream ∧ curlReceived chunks ≤ 8191 ∧
      (∀ chunk ∈ chunks, 0 < chunk.length ∧ chunk.length ≤ 4095) ∧
      (curlPrinted chunks = chunks.flatten ↔ ∀ c ∈ chunks.flatten, c ≠ 0) := by
  obtain ⟨hreturned, hchunks⟩ := cmdCurl_returned hrun
  have hmoves : Moves startNet s' := by
    have hcurl : Within Moves _ (cmdCurl env (netPoll env rounds depth) rounds keys args) :=
      cmdCurl_within Moves.closed (s := (outcome (performAll env rounds depth ops) startNet).2)
    rw [Within, hrun] at hcurl
    exact IsTrans.trans _ _ _ (performAll_moves ops) hcurl
  have hinv : TalkInv s'.ts ∧ StreamInv stream s'.ts :=
    @Moves.tcp_inv _ _ hmoves (fun t => TalkInv t ∧ StreamInv stream t)
      (fun t t' hstep h => ⟨h.1.step hstep, h.2.step hstep h.1⟩)
      ⟨TalkInv.start, fun _ => List.nil_prefix⟩
  have hread := hinv.1.safe.read_le
  have hlen := hinv.1.safe.len_le
  have hloaded := hinv.1.returned
  rw [hreturned] at hloaded
  refine ⟨?_, ?_, hchunks, curlPrinted_eq_iff chunks⟩
  · rw [hloaded]
    refine List.IsPrefix.trans ?_ (hinv.2 hplace)
    rw [← Nat.min_eq_left hread, ← Memory.loadList_take]
    exact List.take_prefix _ _
  · rw [curlReceived, ← List.length_flatten, hloaded, Memory.loadList_length]
    omega

theorem curl_shows_stream_gateway :
    [1, 2] <+: ([1, 2, 3] : List UInt8) ∧ curlPrinted [[1], [2]] = [1, 2] := by
  have hcut : ∀ a ∈ (outcome gatewayFetch polledNet).2.ts.talk.arrived,
      a.CutAt (outcome gatewayFetch polledNet).2.ts.talk.isn [1, 2, 3] a.before := by
    decide +kernel
  obtain ⟨hbegins, -, -, hprinted⟩ := curl_shows_stream orderedEnv 40 1 [.poll] [false, false, true]
    _ [1, 2, 3] outcome_gatewayFetch fun a ha => ⟨a.before, hcut a ha, fun _ => rfl⟩
  exact ⟨hbegins, hprinted.mpr (by decide +kernel)⟩

end Dosfs
