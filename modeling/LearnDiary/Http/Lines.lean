import LearnDiary.Comm.Tokens
import LearnDiary.Http.Strnstr

/-!
# The first line of a message (comm/http.cc)

Versions, methods, `RequestLine`, `StatusLine`, and `strutil::SplitToken` which they parse with.
`FromString` writes its members one after the other, so a line it rejects can leave some of them
changed: it is a function to the flag and the new line.

* `splitToken_eq`          the tokens are those of the loop of comm/strutil.h;
* `tokens_cons`            a token, a delimiter, the rest;
* `findC_crlf_line`        the end of a line is found where it is;
* `RequestLine.firstLine`, `StatusLine.firstLine`  what `ToString` prints for a valid line is
  accepted by `FromString` of the same mode.
-/

namespace Http

def crlf : Bytes := [13, 10]
/-- the literal `"\r\n\r\n"` -/
def crlf2 : Bytes := [13, 10, 13, 10]
def space : Bytes := [32]
def colon : Bytes := [58]

theorem crlf_ne : crlf ≠ [] := by decide
theorem crlf2_ne : crlf2 ≠ [] := by decide

theorem findC_crlf_le {d : Bytes} {pos : Nat} (h : findC crlf d = some pos) : pos + 2 ≤ d.length :=
  Find.findUpTo_add_le notNul h

theorem findC_crlf2_le {d : Bytes} {pos : Nat} (h : findC crlf2 d = some pos) :
    pos + 4 ≤ d.length := Find.findUpTo_add_le notNul h

/-! ## `strutil::Tokenizer` -/

/-- `NextToken`: the token and the text from the new offset on -/
def nextToken (delimiters string_ : Bytes) : Option (Bytes × Bytes) :=
  match string_.dropWhile delimiters.contains with
  | [] => none
  | c :: t => some ((c :: t).takeWhile (fun d => !delimiters.contains d),
      (c :: t).dropWhile (fun d => !delimiters.contains d))

/-- the loop of `SplitToken`; a token has a byte, so the length of the text bounds the loop -/
def tokens (delimiters : Bytes) : Nat → Bytes → List Bytes
  | 0, _ => []
  | fuel + 1, s =>
    match nextToken delimiters s with
    | none => []
    | some (token, rest) => token :: tokens delimiters fuel rest

def splitToken (str delimiters : Bytes) : List Bytes := tokens delimiters (str.length + 1) str

/-! ## versions -/

inductive THttpVersion where
  | kVersion_0_9 | kVersion_1_0 | kVersion_1_1 | kVersion_2_0 | kVersion_Unknow
deriving DecidableEq

def THttpVersion.all : List THttpVersion :=
  [.kVersion_0_9, .kVersion_1_0, .kVersion_1_1, .kVersion_2_0, .kVersion_Unknow]

def kHttpVersionString : THttpVersion → Bytes
  | .kVersion_0_9 => ascii "HTTP/0.9"
  | .kVersion_1_0 => ascii "HTTP/1.0"
  | .kVersion_1_1 => ascii "HTTP/1.1"
  | .kVersion_2_0 => ascii "HTTP/2"
  | .kVersion_Unknow => ascii "version_unknown"

/-- `__GetHttpVersion` -/
def getHttpVersion (_strVersion : Bytes) : THttpVersion :=
  (THttpVersion.all.find? (fun v => cstr _strVersion == kHttpVersionString v)).getD .kVersion_Unknow

inductive TCsMode where
  | kRequest | kRespond
deriving DecidableEq

/-! ## `RequestLine` -/

/-- without `kMax`, which only sizes the table of names -/
inductive THttpMethod where
  | kUnknown | kGet | kPost | kOptions | kHead | kPut | kDelete | kTrace | kConnect
deriving DecidableEq

def THttpMethod.all : List THttpMethod :=
  [.kUnknown, .kGet, .kPost, .kOptions, .kHead, .kPut, .kDelete, .kTrace, .kConnect]

def kHttpMethodString : THttpMethod → Bytes
  | .kUnknown => ascii "UNKNOWN"
  | .kGet => ascii "GET"
  | .kPost => ascii "POST"
  | .kOptions => ascii "OPTIONS"
  | .kHead => ascii "HEAD"
  | .kPut => ascii "PUT"
  | .kDelete => ascii "DELETE"
  | .kTrace => ascii "TRACE"
  | .kConnect => ascii "CONNECT"

structure RequestLine where
  http_method_ : THttpMethod := .kGet
  req_url_ : Bytes := []
  http_version_ : THttpVersion := .kVersion_1_0
deriving DecidableEq

namespace RequestLine

def toString (l : RequestLine) : Bytes :=
  kHttpMethodString l.http_method_ ++ space ++ l.req_url_ ++ space ++
    kHttpVersionString l.http_version_ ++ crlf

/-- the loop over `kHttpMethodString` -/
def methodOf (token : Bytes) : THttpMethod :=
  (THttpMethod.all.find? (fun m => cstr token == kHttpMethodString m)).getD .kUnknown

def fromString (l : RequestLine) (_requestline : Bytes) : Bool × RequestLine :=
  match Find.find crlf _requestline with
  | none => (false, l)
  | some pos =>
    match splitToken (_requestline.take pos) space with
    | t0 :: t1 :: t2 :: _ =>
      let httpmethod := methodOf t0
      if httpmethod = .kUnknown then (false, l)
      else
        let version := getHttpVersion t2
        (version != .kVersion_Unknow, ⟨httpmethod, t1, version⟩)
    | _ => (false, l)

end RequestLine

/-! ## `StatusLine` -/

structure StatusLine where
  http_version_ : THttpVersion := .kVersion_1_0
  statuscode_ : Int := 0
  reason_phrase_ : Bytes := []
deriving DecidableEq

namespace StatusLine

/-- `snprintf` into 16 bytes keeps 15 of them -/
def toString (l : StatusLine) : Bytes :=
  kHttpVersionString l.http_version_ ++ space ++ (printInt l.statuscode_).take 15 ++ space ++
    l.reason_phrase_ ++ crlf

def fromString (l : StatusLine) (_statusline : Bytes) : Bool × StatusLine :=
  match Find.find crlf _statusline with
  | none => (false, l)
  | some pos =>
    match splitToken (_statusline.take pos) space with
    | t0 :: t1 :: rest =>
      let version := getHttpVersion t0
      if version = .kVersion_Unknow then (false, { l with http_version_ := version })
      else (true, ⟨version, toInt32 (strtol 10 t1),
        match rest with
        | [t2] => t2
        | _ => l.reason_phrase_⟩)
    | _ => (false, l)

end StatusLine

/-- what the parser asks before it chooses `StatusLine` -/
def isStatusLine (firstline : Bytes) : Bool := startsWith firstline (ascii "HTTP/")

/-! ## tokens -/

theorem nextToken_split {delimiters s gap token rest : Bytes} (hs : s = gap ++ (token ++ rest))
    (hgap : ∀ c ∈ gap, delimiters.contains c = true) (hne : token ≠ [])
    (htoken : ∀ c ∈ token, delimiters.contains c = false)
    (hrest : ∀ c ∈ rest.head?, delimiters.contains c = true) :
    nextToken delimiters s = some (token, rest) := by
  obtain ⟨c, t, rfl⟩ := List.exists_cons_of_ne_nil hne
  have hall : ∀ a ∈ c :: t, (!delimiters.contains a) = true := by
    intro a ha
    rw [htoken a ha]
    rfl
  have h0 : ¬ delimiters.contains c = true := by
    rw [htoken c List.mem_cons_self]
    exact Bool.false_ne_true
  unfold nextToken
  rw [hs, List.dropWhile_append_of_pos hgap, List.cons_append, List.dropWhile_cons_of_neg h0]
  simp only
  rw [← List.cons_append, List.takeWhile_append_of_pos hall, List.dropWhile_append_of_pos hall]
  cases rest with
  | nil => rw [List.takeWhile_nil, List.dropWhile_nil, List.append_nil]
  | cons d rest =>
    rw [List.takeWhile_cons_of_neg (by simpa using hrest d rfl),
      List.dropWhile_cons_of_neg (by simpa using hrest d rfl), List.append_nil]

theorem nextToken_gap {delimiters s : Bytes} (h : ∀ c ∈ s, delimiters.contains c = true) :
    nextToken delimiters s = none := by
  unfold nextToken
  rw [List.dropWhile_eq_nil_iff.mpr h]

theorem tokens_eq_pieces {delimiters s : Bytes} {fuel : Nat} (h : s.length < fuel) :
    tokens delimiters fuel s = Pieces.pieces delimiters.contains s := by
  induction fuel generalizing s with
  | zero => exact absurd h (Nat.not_lt_zero _)
  | succ fuel ih =>
    rcases Pieces.gap_or_token delimiters.contains s with
      hgap | ⟨gap, token, rest, hs, hgap, hne, htoken, hrest⟩
    · rw [tokens, nextToken_gap hgap, Pieces.pieces_of_gap hgap]
    · have hpos := List.length_pos_iff.mpr hne
      have hlen := congrArg List.length hs
      rw [List.length_append, List.length_append] at hlen
      rw [tokens, nextToken_split hs hgap hne htoken hrest, hs, Pieces.pieces_gap hgap,
        Pieces.pieces_token hne htoken hrest]
      simp only
      rw [ih (by omega)]

theorem splitToken_eq (str delimiters : Bytes) :
    splitToken str delimiters = Strutil.splitToken str delimiters [] := by
  have hp : (fun c => decide (c ∈ delimiters)) = delimiters.contains := by
    funext c
    exact (List.elem_eq_mem c delimiters).symm
  unfold splitToken
  rw [tokens_eq_pieces (Nat.lt_succ_self _), Strutil.splitToken_eq, hp]
  rfl

theorem not_delims {d : UInt8} {t : Bytes} (hd : d ∉ t) :
    ∀ a ∈ t, ([d] : Bytes).contains a = false := by
  intro a ha
  have : a ≠ d := fun e => hd (by rw [← e]; exact ha)
  simp [this]

theorem tokens_cons {d : UInt8} {t s : Bytes} (ht : t ≠ []) (hd : d ∉ t) (hs : s.head? = some d)
    (fuel : Nat) : tokens [d] (fuel + 1) (t ++ s) = t :: tokens [d] fuel s := by
  have hnext : nextToken [d] (t ++ s) = some (t, s) := by
    refine nextToken_split (List.nil_append _).symm nofun ht (not_delims hd) fun c hc => ?_
    rw [hs] at hc
    cases hc
    simp
  rw [tokens, hnext]

theorem tokens_skip {d : UInt8} (s : Bytes) (fuel : Nat) :
    tokens [d] fuel (d :: s) = tokens [d] fuel s := by
  cases fuel with
  | zero => rfl
  | succ fuel =>
    have h0 : ([d] : Bytes).contains d = true := by simp
    unfold tokens nextToken
    rw [List.dropWhile_cons_of_pos h0]

theorem tokens_last {d : UInt8} {t : Bytes} (ht : t ≠ []) (hd : d ∉ t) (fuel : Nat) :
    ∃ l, tokens [d] (fuel + 1) t = t :: l := by
  have hnext : nextToken [d] t = some (t, []) :=
    nextToken_split ((List.append_nil t).symm.trans (List.nil_append _).symm) nofun ht
      (not_delims hd) nofun
  rw [tokens, hnext]
  exact ⟨_, rfl⟩

/-! ## valid lines -/

theorem getHttpVersion_string (v : THttpVersion) : getHttpVersion (kHttpVersionString v) = v := by
  cases v <;> decide +kernel

theorem methodOf_string (m : THttpMethod) : RequestLine.methodOf (kHttpMethodString m) = m := by
  cases m <;> decide +kernel

/-- bytes of a line: neither CR nor NUL, so that the line end is found where it is -/
def LineByte (c : UInt8) : Prop := c ≠ 13 ∧ c ≠ 0

instance (c : UInt8) : Decidable (LineByte c) := inferInstanceAs (Decidable (_ ∧ _))

theorem notNul_of_lineByte {c : UInt8} (h : LineByte c) : notNul c = true := by
  simp [notNul, h.2]

theorem crlf_notNul : ∀ c ∈ crlf, notNul c = true := by
  intro c hc
  rcases List.mem_pair.mp hc with rfl | rfl
  · rfl
  · rfl

theorem crlf2_notNul : ∀ c ∈ crlf2, notNul c = true := by
  intro c hc
  rcases List.mem_append.mp (show c ∈ crlf ++ crlf from hc) with hc | hc
  · exact crlf_notNul c hc
  · exact crlf_notNul c hc

theorem version_bytes (v : THttpVersion) :
    ∀ c ∈ kHttpVersionString v, LineByte c ∧ c ≠ 32 := by
  cases v <;> decide +kernel

theorem method_bytes (m : THttpMethod) : ∀ c ∈ kHttpMethodString m, LineByte c ∧ c ≠ 32 := by
  cases m <;> decide +kernel

theorem printInt_bytes (n : Int) : ∀ c ∈ printInt n, LineByte c ∧ c ≠ 32 := by
  have hnat : ∀ k : Nat, ∀ c ∈ printNat 10 k, LineByte c ∧ c ≠ 32 := by
    intro k c hc
    obtain ⟨d, hd, rfl⟩ := printNat_mem (by decide) hc
    interval_cases d <;> decide
  intro c hc
  unfold printInt at hc
  split at hc
  · rcases List.mem_cons.mp hc with rfl | hc
    · decide
    · exact hnat _ c hc
  · exact hnat _ c hc

theorem printInt_ne_nil (n : Int) : printInt n ≠ [] := by
  unfold printInt
  split
  · exact List.cons_ne_nil _ _
  · exact printNat_ne_nil _ _

theorem find_crlf_line {t : Bytes} (h : ∀ c ∈ t, LineByte c) (s : Bytes) :
    Find.find crlf (t ++ (crlf ++ s)) = some t.length :=
  Find.find_line (fun hm => (h 13 hm).1 rfl) s

theorem findC_crlf_line {t : Bytes} (h : ∀ c ∈ t, LineByte c) (s : Bytes) :
    findC crlf (t ++ (crlf ++ s)) = some t.length := by
  refine Find.findUpTo_line notNul (fun hm => (h 13 hm).1 rfl) (fun a ha => ?_) s
  rcases List.mem_append.mp ha with ha | ha
  · exact notNul_of_lineByte (h a ha)
  · exact crlf_notNul a ha

structure RequestLine.Valid (l : RequestLine) : Prop where
  method : l.http_method_ ≠ .kUnknown
  url : l.req_url_ ≠ [] ∧ ∀ c ∈ l.req_url_, LineByte c ∧ c ≠ 32
  version : l.http_version_ ≠ .kVersion_Unknow

structure StatusLine.Valid (l : StatusLine) : Prop where
  version : l.http_version_ ≠ .kVersion_Unknow
  reason : ∀ c ∈ l.reason_phrase_, LineByte c

/-- what a first line has to be for the parser of mode `m` to go on behind it -/
structure FirstLine (m : TCsMode) (t : Bytes) : Prop where
  bytes : ∀ c ∈ t, LineByte c
  mode : isStatusLine (t ++ crlf) = (m == .kRespond)
  accepts : match m with
    | .kRespond => ∀ l : StatusLine, (l.fromString (t ++ crlf)).1 = true
    | .kRequest => ∀ l : RequestLine, (l.fromString (t ++ crlf)).1 = true

theorem StatusLine.fromString_append {t : Bytes} (h : ∀ c ∈ t, LineByte c) (l : StatusLine) :
    l.fromString (t ++ crlf) = match splitToken t space with
      | t0 :: t1 :: rest =>
        let version := getHttpVersion t0
        if version = .kVersion_Unknow then (false, { l with http_version_ := version })
        else (true, ⟨version, toInt32 (strtol 10 t1),
          match rest with
          | [t2] => t2
          | _ => l.reason_phrase_⟩)
      | _ => (false, l) := by
  have e : Find.find crlf (t ++ crlf) = some t.length := by
    simpa using find_crlf_line h []
  unfold StatusLine.fromString
  rw [e]
  simp only [List.take_left]

theorem RequestLine.fromString_append {t : Bytes} (h : ∀ c ∈ t, LineByte c) (l : RequestLine) :
    l.fromString (t ++ crlf) = match splitToken t space with
      | t0 :: t1 :: t2 :: _ =>
        let httpmethod := methodOf t0
        if httpmethod = .kUnknown then (false, l)
        else
          let version := getHttpVersion t2
          (version != .kVersion_Unknow, ⟨httpmethod, t1, version⟩)
      | _ => (false, l) := by
  have e : Find.find crlf (t ++ crlf) = some t.length := by
    simpa using find_crlf_line h []
  unfold RequestLine.fromString
  rw [e]
  simp only [List.take_left]

theorem RequestLine.line_bytes {l : RequestLine} (h : l.Valid) :
    ∀ c ∈ kHttpMethodString l.http_method_ ++ (32 :: (l.req_url_ ++ (32 ::
      kHttpVersionString l.http_version_))), LineByte c := by
  intro c hc
  simp only [List.mem_append, List.mem_cons] at hc
  rcases hc with hc | rfl | hc | rfl | hc
  · exact (method_bytes l.http_method_ c hc).1
  · decide
  · exact (h.url.2 c hc).1
  · decide
  · exact (version_bytes l.http_version_ c hc).1

theorem RequestLine.toString_eq (l : RequestLine) :
    l.toString = kHttpMethodString l.http_method_ ++ (32 :: (l.req_url_ ++ (32 ::
      kHttpVersionString l.http_version_))) ++ crlf := by
  simp [toString, space]

/-- **A valid request line comes back**, whatever it is read into. -/
theorem RequestLine.fromString_toString {l : RequestLine} (h : l.Valid) (l₀ : RequestLine) :
    l₀.fromString l.toString = (true, l) := by
  have hm := method_bytes l.http_method_
  have hv := version_bytes l.http_version_
  have hu := h.url.2
  have hmne : kHttpMethodString l.http_method_ ≠ [] := by cases l.http_method_ <;> decide
  have hvne : kHttpVersionString l.http_version_ ≠ [] := by cases l.http_version_ <;> decide
  rw [toString_eq, RequestLine.fromString_append (line_bytes h)]
  unfold splitToken space
  generalize hf : (kHttpMethodString l.http_method_ ++ (32 :: (l.req_url_ ++ (32 ::
    kHttpVersionString l.http_version_)))).length + 1 = fuel
  obtain ⟨k, rfl⟩ : ∃ k, fuel = k + 3 := by
    simp only [List.length_append, List.length_cons] at hf
    exact ⟨fuel - 3, by omega⟩
  obtain ⟨r, hr⟩ := tokens_last hvne (fun hc => (hv 32 hc).2 rfl) k
  rw [tokens_cons hmne (fun hc => (hm 32 hc).2 rfl) rfl, tokens_skip,
    tokens_cons h.url.1 (fun hc => (hu 32 hc).2 rfl) rfl, tokens_skip, hr]
  simp [methodOf_string, getHttpVersion_string, h.method, h.version]

/-- **A valid request line is accepted in the mode `kRequest`.** -/
theorem RequestLine.firstLine {l : RequestLine} (h : l.Valid) :
    ∃ t, l.toString = t ++ crlf ∧ FirstLine .kRequest t := by
  refine ⟨_, toString_eq l, line_bytes h, ?_, fun l₀ => ?_⟩
  · unfold isStatusLine
    rw [startsWith_eq]
    cases l.http_method_ <;> rfl
  · rw [← toString_eq, fromString_toString h]

/-- **A valid status line is accepted in the mode `kRespond`.** -/
theorem StatusLine.firstLine {l : StatusLine} (h : l.Valid) :
    ∃ t, l.toString = t ++ crlf ∧ FirstLine .kRespond t := by
  have hv := version_bytes l.http_version_
  have hc : ∀ c ∈ (printInt l.statuscode_).take 15, LineByte c ∧ c ≠ 32 :=
    fun c hc => printInt_bytes _ c (List.mem_of_mem_take hc)
  have hcne : (printInt l.statuscode_).take 15 ≠ [] := by
    intro e
    rcases List.take_eq_nil_iff.mp e with e | e
    · exact absurd e (by decide)
    · exact printInt_ne_nil _ e
  have hbytes : ∀ c ∈ kHttpVersionString l.http_version_ ++ (32 ::
      ((printInt l.statuscode_).take 15 ++ (32 :: l.reason_phrase_))), LineByte c := by
    intro c hm
    simp only [List.mem_append, List.mem_cons] at hm
    rcases hm with hm | rfl | hm | rfl | hm
    · exact (hv c hm).1
    · decide
    · exact (hc c hm).1
    · decide
    · exact h.reason c hm
  refine ⟨_, ?_, hbytes, ?_, ?_⟩
  · simp [toString, space]
  · have hver := h.version
    unfold isStatusLine
    rw [startsWith_eq]
    revert hver
    cases l.http_version_ <;> intro hver
    case kVersion_Unknow => exact absurd rfl hver
    all_goals rfl
  · intro l0
    have hvne : kHttpVersionString l.http_version_ ≠ [] := by cases l.http_version_ <;> decide
    rw [StatusLine.fromString_append hbytes]
    unfold splitToken space
    generalize hf : (kHttpVersionString l.http_version_ ++ (32 ::
      ((printInt l.statuscode_).take 15 ++ (32 :: l.reason_phrase_)))).length + 1 = fuel
    obtain ⟨k, rfl⟩ : ∃ k, fuel = k + 2 := by
      simp only [List.length_append, List.length_cons] at hf
      exact ⟨fuel - 2, by omega⟩
    rw [tokens_cons hvne (fun hc => (hv 32 hc).2 rfl) rfl, tokens_skip,
      tokens_cons hcne (fun hm => (hc 32 hm).2 rfl) rfl, tokens_skip]
    simp [getHttpVersion_string, h.version]

end Http
