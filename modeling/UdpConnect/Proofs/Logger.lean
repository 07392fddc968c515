/-
The packet log can be read.

A line is a head that says the direction and the family, the address, the port and the
bytes, and each of these says where it ends: a number is closed by something that is not
a digit.  What the stream remembers from earlier lines does not matter, because a line
sets all of it before it writes a number and leaves no width behind.

So a log is the log of one traffic only, and what it says of a datagram that was received
is what the network delivered.
-/
import UdpConnect.Lib.SelfDelimiting
import UdpConnect.Lib.Transducer
import UdpConnect.Api
import UdpConnect.Logger
import UdpConnect.Proofs.Receive
import Mathlib.Tactic.Linarith

namespace UdpConnect

open Codes Transducer

/-! ### Numbers -/

/-- A number in a field that is filled with zeros. -/
def digits (base width n : Nat) : List Char :=
  ((Nat.toDigits base n).map Char.toUpper).leftpad width '0'

/-- What a digit counts. -/
def digitValue (c : Char) : Nat := if c.isDigit then c.toNat - 48 else c.toNat - 55

/-- What a row of digits counts. -/
def value (base : Nat) (chars : List Char) : Nat :=
  chars.foldl (fun v c => base * v + digitValue c) 0

theorem digitValue_digitChar {d : Nat} (h : d < 16) : digitValue d.digitChar.toUpper = d := by
  have hall : ∀ d : Fin 16, digitValue d.val.digitChar.toUpper = d.val := by decide
  exact hall ⟨d, h⟩

theorem isAlphanum_digitChar {d : Nat} (h : d < 16) : d.digitChar.toUpper.isAlphanum = true := by
  have hall : ∀ d : Fin 16, d.val.digitChar.toUpper.isAlphanum = true := by decide
  exact hall ⟨d, h⟩

theorem value_toDigits {base : Nat} (hbase : 1 < base) (h : base ≤ 16) (n : Nat) :
    value base ((Nat.toDigits base n).map Char.toUpper) = n := by
  induction n using Nat.strong_induction_on with
  | _ n ih =>
      rw [Nat.toDigits_eq_if hbase]
      split
      next hn =>
        simp [value, digitValue_digitChar (Nat.lt_of_lt_of_le hn h)]
      next hn =>
        have hmod : n % base < 16 := Nat.lt_of_lt_of_le (Nat.mod_lt n (by omega)) h
        have hdiv := ih (n / base) (Nat.div_lt_self (by omega) hbase)
        unfold value at hdiv ⊢
        rw [List.map_append, List.foldl_append, hdiv]
        simp only [List.map_cons, List.map_nil, List.foldl_cons, List.foldl_nil,
          digitValue_digitChar hmod]
        exact Nat.div_add_mod n base

/-- The zeros in front do not count. -/
theorem value_digits {base : Nat} (hbase : 1 < base) (h : base ≤ 16) (width n : Nat) :
    value base (digits base width n) = n := by
  have hzeros : ∀ k, (List.replicate k '0').foldl (fun v c => base * v + digitValue c) 0 = 0 := by
    intro k
    induction k with
    | zero => rfl
    | succ k ih =>
        rw [List.replicate_succ, List.foldl_cons]
        exact ih
  rw [value, digits, List.leftpad, List.foldl_append, hzeros]
  exact value_toDigits hbase h n

theorem digits_injective {base : Nat} (hbase : 1 < base) (h : base ≤ 16) (width : Nat) :
    Function.Injective (digits base width) := fun m n heq => by
  rw [← value_digits hbase h width m, heq, value_digits hbase h]

theorem isAlphanum_toDigits {base : Nat} (hbase : 1 < base) (h : base ≤ 16) (n : Nat) :
    ∀ c ∈ (Nat.toDigits base n).map Char.toUpper, c.isAlphanum = true := by
  induction n using Nat.strong_induction_on with
  | _ n ih =>
      intro c hc
      rw [Nat.toDigits_eq_if hbase] at hc
      split at hc
      next hn =>
        obtain rfl := List.mem_singleton.mp hc
        exact isAlphanum_digitChar (Nat.lt_of_lt_of_le hn h)
      next hn =>
        rw [List.map_append, List.mem_append] at hc
        rcases hc with hc | hc
        · exact ih (n / base) (Nat.div_lt_self (by omega) hbase) c hc
        · obtain rfl := List.mem_singleton.mp hc
          exact isAlphanum_digitChar (Nat.lt_of_lt_of_le (Nat.mod_lt n (by omega)) h)

theorem not_mem_digits {base : Nat} (hbase : 1 < base) (h : base ≤ 16) (width n : Nat)
    {mark : Char} (hmark : mark.isAlphanum = false) : mark ∉ digits base width n := by
  intro hmem
  rw [digits, List.leftpad, List.mem_append] at hmem
  rcases hmem with hmem | hmem
  · rw [List.eq_of_mem_replicate hmem] at hmark
    exact absurd hmark (by decide)
  · rw [isAlphanum_toDigits hbase h n mark hmem] at hmark
    cases hmark

/-- A number closed by something that is not a digit. -/
theorem digits_selfDelimiting {base : Nat} (hbase : 1 < base) (h : base ≤ 16) (width : Nat)
    {mark : Char} (hmark : mark.isAlphanum = false) :
    SelfDelimiting fun n => digits base width n ++ [mark] :=
  selfDelimiting_closed (digits_injective hbase h width)
    fun n => not_mem_digits hbase h width n hmark

/-! ### Lines -/

/-- The marks behind the segments of an address. -/
def segmentMark : Direction → Char
  | .received => ':'
  | .sent => '.'

def head : Direction → UdcAddress → String
  | .received, .ipv4 _ => "RECV IPV4 "
  | .received, .ipv6 _ => "RECV IPV6 "
  | .sent, .ipv4 _ => "SEND IPV4 "
  | .sent, .ipv6 _ => "SEND IPV6 "

def addressText (direction : Direction) : UdcAddress → List Char
  | .ipv4 ip => ip.octets.flatMap fun byte => digits 10 0 byte.toNat ++ ['.']
  | .ipv6 ip => (words ip.segments).flatMap fun n => digits 16 4 n ++ [segmentMark direction]

def portText (port : UInt16) : List Char := digits 10 0 port.toNat ++ [' ']

def dataText (data : List UInt8) : List Char :=
  (data.flatMap fun byte => digits 16 2 byte.toNat ++ [' ']) ++ ['\n']

/-- The line for an entry. -/
def line (e : LogEntry) : List Char :=
  (head e.direction e.address.address).toList ++ (addressText e.direction e.address.address ++
    (':' :: (portText e.address.port ++ dataText e.data)))

theorem words_injective (k : Nat) : ∀ {bytes bytes' : List UInt8}, bytes.length = 2 * k →
    bytes'.length = 2 * k → words bytes = words bytes' → bytes = bytes' := by
  induction k with
  | zero =>
      intro bytes bytes' h h' _
      rw [List.length_eq_zero_iff.mp h, List.length_eq_zero_iff.mp h']
  | succ k ih =>
      intro bytes bytes' h h' heq
      match bytes, bytes', h, h', heq with
      | low :: high :: rest, low' :: high' :: rest', h, h', heq =>
          simp only [words, List.cons.injEq] at heq
          obtain ⟨hword, hwords⟩ := heq
          have hbound := low.toNat_lt
          have hbound' := low'.toNat_lt
          have hlow : low = low' := UInt8.toNat_inj.mp (by omega)
          have hhigh : high = high' := UInt8.toNat_inj.mp (by omega)
          simp only [List.length_cons] at h h'
          rw [hlow, hhigh, ih (by omega) (by omega) hwords]

theorem length_words (k : Nat) : ∀ {bytes : List UInt8}, bytes.length = 2 * k →
    (words bytes).length = k := by
  induction k with
  | zero =>
      intro bytes h
      rw [List.length_eq_zero_iff.mp h]
      rfl
  | succ k ih =>
      intro bytes h
      match bytes, h with
      | _ :: _ :: rest, h =>
          simp only [List.length_cons] at h
          rw [words, List.length_cons, ih (by omega)]

theorem length_head (direction : Direction) (address : UdcAddress) :
    (head direction address).toList.length = 10 := by
  cases direction <;> cases address <;> simp [head]

theorem portText_selfDelimiting : SelfDelimiting portText :=
  (digits_selfDelimiting (by decide) (by decide) 0 (by decide)).comp
    fun _ _ h => UInt16.toNat_inj.mp h

theorem dataText_selfDelimiting : SelfDelimiting dataText := by
  refine SelfDelimiting.list ((digits_selfDelimiting (by decide) (by decide) 2 (by decide)).comp
    (h := UInt8.toNat) fun _ _ h => UInt8.toNat_inj.mp h) (by simp) ?_
  intro byte h
  have hmem := List.mem_of_mem_head? h
  rcases List.mem_append.mp hmem with hdigit | hmark
  · exact not_mem_digits (by decide) (by decide) 2 byte.toNat (by decide) hdigit
  · exact absurd hmark (by decide)

/-- Addresses of one family, with the same marks. -/
theorem addressText_inj {direction : Direction} {a b : UdcAddress} {xs ys : List Char}
    (hfamily : head direction a = head direction b)
    (h : addressText direction a ++ xs = addressText direction b ++ ys) : a = b ∧ xs = ys := by
  cases a with
  | ipv4 ip =>
      cases b with
      | ipv4 ip' =>
          have hcode : SelfDelimiting fun byte : UInt8 => digits 10 0 byte.toNat ++ ['.'] :=
            (digits_selfDelimiting (by decide) (by decide) 0 (by decide)).comp
              fun _ _ h => UInt8.toNat_inj.mp h
          obtain ⟨octets, size⟩ := ip
          obtain ⟨octets', size'⟩ := ip'
          obtain ⟨rfl, hrest⟩ := hcode.flatMap octets octets' xs ys (size.trans size'.symm) h
          exact ⟨rfl, hrest⟩
      | ipv6 _ => cases direction <;> exact absurd hfamily (by simp [head])
  | ipv6 ip =>
      cases b with
      | ipv4 _ => cases direction <;> exact absurd hfamily (by simp [head])
      | ipv6 ip' =>
          have hcode : SelfDelimiting fun n => digits 16 4 n ++ [segmentMark direction] :=
            digits_selfDelimiting (by decide) (by decide) 4 (by cases direction <;> decide)
          obtain ⟨segments, size⟩ := ip
          obtain ⟨segments', size'⟩ := ip'
          obtain ⟨hwords, hrest⟩ := hcode.flatMap (words segments) (words segments') xs ys
            ((length_words 8 size).trans (length_words 8 size').symm) h
          obtain rfl := words_injective 8 size size' hwords
          exact ⟨rfl, hrest⟩

theorem head_direction {direction direction' : Direction} {a b : UdcAddress}
    (h : head direction a = head direction' b) : direction = direction' := by
  cases direction <;> cases direction' <;> cases a <;> cases b <;> simp [head] at h ⊢

theorem line_selfDelimiting : SelfDelimiting line := by
  intro e e' xs ys h
  simp only [line, List.append_assoc, List.cons_append] at h
  obtain ⟨hhead, h⟩ := List.append_inj h ((length_head _ _).trans (length_head _ _).symm)
  rw [String.toList_inj] at hhead
  have hdirection := head_direction hhead
  rw [hdirection] at hhead h
  obtain ⟨haddress, h⟩ := addressText_inj hhead h
  obtain ⟨hport, h⟩ := portText_selfDelimiting _ _ _ _ (List.cons.inj h).2
  obtain ⟨hdata, hrest⟩ := dataText_selfDelimiting _ _ _ _ h
  obtain ⟨direction, ⟨address, port⟩, data⟩ := e
  obtain ⟨direction', ⟨address', port'⟩, data'⟩ := e'
  cases hdirection
  cases haddress
  cases hport
  cases hdata
  exact ⟨rfl, hrest⟩

/-! ### What is written -/

/-- Nothing is left of a field, and this has been added. -/
structure Writes (s s' : Stream) (code : List Char) : Prop where
  text : s'.text = s.text ++ code
  width : s'.width = 0

theorem Writes.trans {s s' s'' : Stream} {code code' : List Char} (h : Writes s s' code)
    (h' : Writes s' s'' code') : Writes s s'' (code ++ code') :=
  ⟨by rw [h'.text, h.text, List.append_assoc], h'.width⟩

section Stream

variable {s : Stream}

theorem writes_put (hwidth : s.width = 0) (chars : List Char) : Writes s (s.put chars) chars :=
  ⟨by simp [Stream.put, hwidth, List.leftpad], rfl⟩

theorem toUpper_of_isDigit {c : Char} (h : c.isDigit = true) : c.toUpper = c := by
  simp only [Char.isDigit, Bool.and_eq_true, decide_eq_true_eq, UInt32.le_iff_toNat_le] at h
  have hlower : ¬ (c.val ≥ 'a'.val ∧ c.val ≤ 'z'.val) := by
    rw [ge_iff_le, UInt32.le_iff_toNat_le]
    rintro ⟨hletter, -⟩
    change 48 ≤ c.val.toNat ∧ c.val.toNat ≤ 57 at h
    change 97 ≤ c.val.toNat at hletter
    omega
  unfold Char.toUpper
  rw [dif_neg hlower]

/-- Decimal digits have no letters. -/
theorem map_toUpper_dec (n : Nat) : (Nat.toDigits 10 n).map Char.toUpper = Nat.toDigits 10 n :=
  (List.map_congr_left fun _ hc => toUpper_of_isDigit
    (Nat.isDigit_of_mem_toDigits (by decide) (by decide) hc)).trans (List.map_id _)

theorem writes_dec (hwidth : s.width = 0) (n : Nat) :
    Writes s (s.dec.putNumber n) (digits 10 0 n) := by
  have hdigits : (Nat.toDigits 10 n).map (fun c => if s.isUppercase then c.toUpper else c)
      = digits 10 0 n := by
    rw [digits, map_toUpper_dec, List.leftpad, Nat.zero_sub, List.replicate_zero, List.nil_append]
    cases s.isUppercase with
    | true => exact map_toUpper_dec n
    | false => exact List.map_id _
  have h := writes_put (s := s.dec) hwidth (digits 10 0 n)
  rw [← hdigits] at h ⊢
  exact ⟨h.text, h.width⟩

theorem writes_hex (width n : Nat) :
    Writes s ((((s.hex.uppercase).setfill '0').setw width).putNumber n) (digits 16 width n) :=
  ⟨rfl, rfl⟩

theorem writes_foldl {α : Type} {f : Stream → α → Stream} {code : α → List Char}
    (hstep : ∀ s a, s.width = 0 → Writes s (f s a) (code a)) (as : List α) :
    ∀ {s : Stream}, s.width = 0 → Writes s (as.foldl f s) (as.flatMap code) := by
  induction as with
  | nil => exact fun hwidth => ⟨(List.append_nil _).symm, hwidth⟩
  | cons a as ih =>
      intro s hwidth
      rw [List.foldl_cons, List.flatMap_cons]
      have h := hstep s a hwidth
      exact h.trans (ih h.width)

theorem writes_octets (hwidth : s.width = 0) (octets : List UInt8) :
    Writes s (UdcPacketLogger.putOctets s octets)
      (octets.flatMap fun byte => digits 10 0 byte.toNat ++ ['.']) := by
  refine writes_foldl (fun s byte hwidth => ?_) octets hwidth
  have h := writes_dec hwidth byte.toNat
  exact h.trans (writes_put h.width _)

theorem writes_segments (hwidth : s.width = 0) (mark : Char) (segments : List UInt8) :
    Writes s (UdcPacketLogger.putSegments s mark segments)
      ((words segments).flatMap fun n => digits 16 4 n ++ [mark]) := by
  refine writes_foldl (fun s n _ => ?_) (words segments) hwidth
  have h := writes_hex (s := s) 4 n
  exact h.trans (writes_put h.width _)

theorem writes_data (hwidth : s.width = 0) (data : List UInt8) :
    Writes s (UdcPacketLogger.putData s data)
      (data.flatMap fun byte => digits 16 2 byte.toNat ++ [' ']) := by
  refine writes_foldl (fun s byte _ => ?_) data hwidth
  have h := writes_hex (s := s) 2 byte.toNat
  exact h.trans (writes_put h.width _)

theorem writes_packet (hwidth : s.width = 0) (port : UInt16) (data : List UInt8) :
    Writes s (UdcPacketLogger.putPacket s port data) (':' :: (portText port ++ dataText data)) := by
  have hmark := writes_put hwidth [':']
  have hport := writes_dec hmark.width port.toNat
  have hblank := writes_put hport.width [' ']
  have hdata := writes_data hblank.width data
  have h := (((hmark.trans hport).trans hblank).trans hdata).trans (writes_put hdata.width ['\n'])
  unfold UdcPacketLogger.putPacket
  simpa only [portText, dataText, List.append_assoc, List.cons_append, List.nil_append] using h

/-- A call of the logger writes its line, whatever has been written before. -/
theorem writes_log (hwidth : s.width = 0) (e : LogEntry) :
    Writes s (UdcPacketLogger.log s e) (line e) := by
  obtain ⟨direction, ⟨address, port⟩, data⟩ := e
  have hhead := writes_put hwidth (head direction address).toList
  cases address with
  | ipv4 ip =>
      have haddress := writes_octets hhead.width ip.octets
      have h := (hhead.trans haddress).trans (writes_packet haddress.width port data)
      rw [List.append_assoc] at h
      cases direction <;> exact h
  | ipv6 ip =>
      have haddress := writes_segments hhead.width (segmentMark direction) ip.segments
      have h := (hhead.trans haddress).trans (writes_packet haddress.width port data)
      rw [List.append_assoc] at h
      cases direction <;> exact h

end Stream

/-! ### The traffic of a mux -/

namespace LoggedMux

/-- What the network took from a call, or gave to it. -/
def traffic (m : LoggedMux) : MuxCall → List LogEntry
  | .send address data size sent =>
      if (m.send address data size sent).2 then [⟨.sent, address, data.take size⟩] else []
  | .receive buffer size =>
      ((m.receive buffer size).1.mux.history.received.drop m.mux.history.received.length).map
        fun p => ⟨.received, p.address, p.bytes⟩
  | _ => []

/-- A call, and the traffic of it. -/
def react (m : LoggedMux) (call : MuxCall) : LoggedMux × List LogEntry :=
  (m.step call, m.traffic call)

/-- The text in the log file, if there is one. -/
def file (m : LoggedMux) : Option (List Char) := m.m_logger.map Stream.text

end LoggedMux

/-- A receive is given a length that its buffer has. -/
def MuxCall.Fits : MuxCall → Prop
  | .receive buffer size => Capacity buffer size
  | _ => True

section Traffic

variable {m : LoggedMux} {s : Stream} {address : UdcAddressMux} {data : List UInt8} {size : Nat}
  {sent : Bool} {buffer : MessageBuffer}

/-- The log `s` of the sockets has become that of these sockets by the lines of the entries. -/
def Logs (s : Stream) (m' : LoggedMux) (entries : List LogEntry) : Prop :=
  ∃ s', m'.m_logger = some s' ∧ Writes s s' (entries.flatMap line)

theorem logs_nothing (hwidth : s.width = 0) (hlogger : m.m_logger = some s) : Logs s m [] :=
  ⟨s, hlogger, (List.append_nil _).symm, hwidth⟩

theorem logs_entry (hwidth : s.width = 0) {e : LogEntry}
    (hlogger : m.m_logger = some (UdcPacketLogger.log s e)) : Logs s m [e] := by
  refine ⟨_, hlogger, ?_⟩
  rw [List.flatMap_singleton]
  exact writes_log hwidth e

theorem logs_send (hwidth : s.width = 0) (hlogger : m.m_logger = some s) :
    Logs s (m.send address data size sent).1 (m.traffic (.send address data size sent)) := by
  cases hsent : m.mux.canSend address && sent with
  | true =>
      simp only [LoggedMux.traffic, LoggedMux.send, hsent, if_true]
      refine logs_entry hwidth ?_
      rw [hlogger]
      rfl
  | false =>
      simp only [LoggedMux.traffic, LoggedMux.send, hsent, Bool.false_eq_true, if_false]
      exact logs_nothing hwidth hlogger

/-- What a receive logs is what the network delivered. -/
theorem logs_receive (hwidth : s.width = 0) (hlogger : m.m_logger = some s)
    (hcap : Capacity buffer size) :
    Logs s (m.receive buffer size).1 (m.traffic (.receive buffer size)) := by
  obtain ⟨hpolled, hdelivered⟩ := receive_polled (m := m.mux) hcap
  unfold LoggedMux.traffic LoggedMux.receive
  cases haddress : (m.mux.receive buffer size).address with
  | none =>
      simp only [haddress, hpolled.quiet haddress, List.drop_length, List.map_nil]
      exact logs_nothing hwidth hlogger
  | some address =>
      obtain ⟨p, hp⟩ := hdelivered address haddress
      have hsource : address = p.address := Option.some.inj (haddress.symm.trans hp.address)
      simp only [haddress, hp.received, List.drop_left, List.map_cons, List.map_nil, hp.front]
      refine logs_entry hwidth ?_
      rw [hlogger, hsource]
      rfl

theorem logs_step (hwidth : s.width = 0) (hlogger : m.m_logger = some s) (call : MuxCall)
    (hfits : call.Fits) : Logs s (m.step call) (m.traffic call) := by
  cases call with
  | send address data size sent => exact logs_send hwidth hlogger
  | receive buffer size => exact logs_receive hwidth hlogger hfits
  | bindIPv4 bound => exact logs_nothing hwidth hlogger
  | bindIPv6 bound => exact logs_nothing hwidth hlogger
  | arriveIPv4 index arrival => exact logs_nothing hwidth hlogger
  | arriveIPv6 index arrival => exact logs_nothing hwidth hlogger

theorem logs_run (calls : List MuxCall) : ∀ {m : LoggedMux} {s : Stream}, s.width = 0 →
    m.m_logger = some s → (∀ call ∈ calls, call.Fits) →
      Logs s (run LoggedMux.react calls m).1 (run LoggedMux.react calls m).2 := by
  induction calls with
  | nil => exact fun hwidth hlogger _ => logs_nothing hwidth hlogger
  | cons call calls ih =>
      intro m s hwidth hlogger hfits
      obtain ⟨hcall, hcalls⟩ := List.forall_mem_cons.mp hfits
      obtain ⟨s', hlogger', hs'⟩ := logs_step hwidth hlogger call hcall
      obtain ⟨s'', hlogger'', hs''⟩ := ih (m := m.step call) hs'.width hlogger' hcalls
      refine ⟨s'', hlogger'', ?_⟩
      have h := hs'.trans hs''
      rw [← List.flatMap_append] at h
      exact h

theorem line_ne_nil (e : LogEntry) : line e ≠ [] := by
  intro h
  have hlength := congrArg List.length h
  rw [line, List.length_append, length_head, List.length_nil] at hlength
  omega

end Traffic

/--
**The log file tells the traffic.**  Two histories of sockets that leave the same log have
received and sent the same datagrams, from and to the same addresses and in the same order.
-/
theorem log_determines {calls calls' : List MuxCall} (hfits : ∀ call ∈ calls, call.Fits)
    (hfits' : ∀ call ∈ calls', call.Fits)
    (h : (run LoggedMux.react calls (.new true)).1.file
      = (run LoggedMux.react calls' (.new true)).1.file) :
    (run LoggedMux.react calls (.new true)).2 = (run LoggedMux.react calls' (.new true)).2 := by
  obtain ⟨s, hs, hwrites⟩ := logs_run calls (m := .new true) rfl rfl hfits
  obtain ⟨s', hs', hwrites'⟩ := logs_run calls' (m := .new true) rfl rfl hfits'
  unfold LoggedMux.file at h
  rw [hs, hs'] at h
  have htext : s.text = s'.text := Option.some.inj h
  rw [hwrites.text, hwrites'.text] at htext
  exact line_selfDelimiting.text line_ne_nil (List.append_cancel_left htext)

/-- A datagram comes and is answered, with or without a send that fails in between. -/
def answered (fails : Bool) : List MuxCall :=
  [.bindIPv4 true, .arriveIPv4 0 (.datagram ⟨exampleIP 2, 2, [1, 2, 3], default⟩),
    .receive exampleBuffer 16] ++
  (if fails then [.send ⟨.ipv4 (exampleIP 3), 3⟩ [9] 1 false] else []) ++
  [.send ⟨.ipv4 (exampleIP 2), 2⟩ [4, 5] 1 true]

theorem log_determines_answered :
    (run LoggedMux.react (answered true) (.new true)).2
        = (run LoggedMux.react (answered false) (.new true)).2 ∧
      (run LoggedMux.react (answered false) (.new true)).2
        = [⟨.received, ⟨.ipv4 (exampleIP 2), 2⟩, [1, 2, 3]⟩,
          ⟨.sent, ⟨.ipv4 (exampleIP 2), 2⟩, [4]⟩] := by
  have hfits : ∀ fails, ∀ call ∈ answered fails, call.Fits := by
    have hcap : Capacity exampleBuffer 16 := capacity_full exampleBuffer
    intro fails
    cases fails <;> simp [answered, MuxCall.Fits, hcap]
  exact ⟨log_determines (hfits true) (hfits false) rfl, rfl⟩

end UdpConnect
