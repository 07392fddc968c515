/-
Servers that share a signature.

A datagram that is shorter than a header, or too long for the length given, is written over
the signature in the message buffer and nobody puts it back.  Such a datagram can come from
anywhere, but not from a server with the same signature: all that a server sends begins with
its signature (`every_datagram_signed`), and writing that over the signature changes nothing.
So among servers that share a signature, and hear from no one else, each lends the others
what keeps it (`community_signed`).

Then whatever one of them reports to its application was handed to another for sending
(`message_authentic`): no payload is made up, cut short or put together from several.
-/
import UdpConnect.Proofs.Network
import UdpConnect.Proofs.Signature

namespace UdpConnect

open Memory Past AlternatingBit

/-! ### Strays come from the inboxes -/

/-- All that waits at the sockets agrees with the signature. -/
def UdcSocketMux.Agree (m : UdcSocketMux) (signature : UdcSignature) : Prop :=
  ∀ name, ∀ q ∈ m.inbox name, Agrees signature q.bytes

section Strays

variable {Address : Type} {b : MessageBuffer} {n : Nat} {d : List UInt8} {signature : UdcSignature}
  {m : UdcSocketMux} {s : UdcServerImpl} {time : Milliseconds}

theorem agrees_take (h : Agrees signature d) (k : Nat) : Agrees signature (d.take k) := by
  refine List.IsPrefix.trans ?_ h
  rw [List.take_take]
  exact List.take_prefix_take_left (Nat.min_le_left ..)

theorem stray_mem (family : Address → UdcAddress) {socket : UdcSocket Address}
    (h : d ∈ (socket.stray n).toList) : ∃ q ∈ socket.inbox family, d = q.bytes.take n := by
  unfold UdcSocket.stray at h
  cases hpending : socket.pending with
  | nil =>
      rw [hpending] at h
      cases h
  | cons x rest =>
      rw [hpending] at h
      cases x with
      | datagram x =>
          simp only at h
          split at h
          · refine ⟨x.packet family, ?_, Option.mem_toList.mp h |> Option.some.inj |> Eq.symm⟩
            rw [inbox_datagram hpending]
            exact List.mem_cons_self
          · cases h
      | _ => cases h

theorem straysFirst_mem (family : Address → UdcAddress) (sockets : List (UdcSocket Address)) :
    ∀ (b : MessageBuffer) (n : Nat), d ∈ straysFirst sockets b n →
      ∃ index, ∃ q ∈ inboxAt family sockets index, ∃ k, d = q.bytes.take k := by
  induction sockets with
  | nil =>
      intro b n h
      cases h
  | cons socket rest ih =>
      intro b n h
      unfold straysFirst at h
      rcases List.mem_append.mp h with h | h
      · obtain ⟨q, hq, hd⟩ := stray_mem family h
        exact ⟨0, q, hq, n, hd⟩
      · split at h
        · cases h
        · obtain ⟨index, q, hq, hd⟩ := ih _ _ h
          exact ⟨index + 1, q, by rwa [inboxAt_cons_succ], hd⟩

/-- Where all datagrams agree with the signature, what is written past the header check does. -/
theorem agree_strays (h : m.Agree signature) : ∀ d ∈ m.strays b n, Agrees signature d := by
  intro d hd
  unfold UdcSocketMux.strays at hd
  rcases List.mem_append.mp hd with hd | hd
  · obtain ⟨index, q, hq, k, rfl⟩ := straysFirst_mem .ipv6 _ _ _ hd
    exact agrees_take (h (.ipv6 index) q hq) k
  · split at hd
    · cases hd
    · rw [socketIPv4_receiveIPv6] at hd
      obtain ⟨index, q, hq, k, rfl⟩ := straysFirst_mem .ipv4 _ _ _ hd
      exact agrees_take (h (.ipv4 index) q hq) k

theorem agree_shrinks {m' : UdcSocketMux} (h : m.Agree signature)
    (hshrinks : ∀ name, Shrinks (m.inbox name) (m'.inbox name)) : m'.Agree signature := by
  intro name q hq
  rcases hshrinks name with hsame | ⟨p, hp⟩
  · rw [hsame] at hq
    exact h name q hq
  · refine h name q ?_
    rw [hp]
    exact List.mem_cons_of_mem _ hq

theorem agree_straysLoop (fuel : Nat) : ∀ (s : UdcServerImpl) (n : Nat),
    Capacity s.messageBuffer n → s.socket.Agree signature →
      ∀ d ∈ UdcServerImpl.straysLoop time fuel s n, Agrees signature d := by
  induction fuel with
  | zero =>
      intro s n _ _ d hd
      cases hd
  | succ fuel ih =>
      intro s n hcap h d hd
      unfold UdcServerImpl.straysLoop at hd
      rcases List.mem_append.mp hd with hd | hd
      · exact agree_strays h d hd
      · cases hr : (s.receive n).2.1 with
        | none =>
            rw [receive_none hr] at hd
            cases hd
        | some address =>
            obtain ⟨p, -, hturn, hcap'⟩ := turn_of_receive time hcap hr
            have hdrained := hturn.drained
            rw [receive_some hr] at hd
            simp only at hd
            generalize (s.receive n).1.handleDatagram address (s.receive n).2.2 time = t at *
            obtain ⟨s', event⟩ := t
            cases event with
            | some e => cases hd
            | none => exact ih s' _ hcap' (agree_shrinks h hdrained) d hd

/-- **Datagrams that agree with the signature leave it where it is.** -/
theorem keepsSignature_of_agree (h : s.socket.Agree s.packetSignature) (time : Milliseconds) :
    KeepsSignature s (.receiveMessages time) :=
  agree_straysLoop _ s _ (capacity_full _) h

end Strays

/-! ### Keeping the signature -/

/-- Where a payload lies in the message buffer. -/
def UdcMessageType.offset : UdcMessageType → Nat
  | .unreliableMessage => MsgHeader.size
  | .reliableMessage => MsgReliable.size

/-- No payload is so long that its size goes around with its header. -/
def Move.Short {ι : Type} : Move ι → Prop
  | .call _ (.sendMessage _ data type) => type.offset + data.length < 2 ^ 32
  | _ => True

instance {ι : Type} (move : Move ι) : Decidable move.Short := by
  induction move using Move.casesOn with
  | call n op => induction op using Op.casesOn <;> unfold Move.Short <;> infer_instance
  | deliver sender packet source index negative =>
      unfold Move.Short
      infer_instance

/-- Everybody's buffer holds the signature, and everything on its way carries it. -/
structure Community {ι : Type} (signature : UdcSignature) (net : Network ι) : Prop where
  signed : ∀ n, Signed signature (net.node n)
  carried : ∀ x ∈ net.sent, x.2.bytes.take 4 = signature.bytes

section Signatures

variable {ι : Type} [DecidableEq ι] {owner : UdcAddressMux → Option ι} {net : Network ι}
  {moves : List (Move ι)} {move : Move ι} {signature : UdcSignature} {buffer : ι → MessageBuffer}
  {n : ι} {op : Op}

omit [DecidableEq ι] in
theorem Community.agree (h : Community signature net) (hgenuine : Genuine owner net) (n : ι) :
    (net.node n).socket.Agree (net.node n).packetSignature := by
  intro name q hq
  obtain ⟨k, p, hsent, -, -, hbytes⟩ := hgenuine n name q hq
  rw [Agrees, hbytes, h.carried (k, p) hsent, (h.signed n).kept]

omit [DecidableEq ι] in
theorem Community.call (h : Community signature net) (hgenuine : Genuine owner net)
    (hallowed : (Move.call n op).Allowed owner net) (hshort : (Move.call n op).Short) :
    Signed signature (UdpConnect.step (net.node n) op).1 := by
  refine signed_step (l := (op, (UdpConnect.step (net.node n) op).2)) (h.signed n)
    ⟨hallowed.1, rfl⟩ ?_
  cases op with
  | sendMessage id data type =>
      cases type with
      | unreliableMessage => exact fun _ _ _ => hshort
      | reliableMessage => exact fun _ _ => hshort
  | receiveMessages time => exact keepsSignature_of_agree (h.agree hgenuine n) time
  | _ => exact trivial

theorem signed_arrival {s : UdcServerImpl} (h : Signed signature s) (negative : NegativeLength)
    (source : UdcAddressMux) (index : Nat) (p : Packet) :
    Signed signature (UdpConnect.step s (arrivalFrom negative source index p)).1 := by
  obtain ⟨ip | ip, port⟩ := source
  · exact ⟨h.kept, h.front, h.sent, h.queued⟩
  · exact ⟨h.kept, h.front, h.sent, h.queued⟩

theorem community_step (h : Community signature net) (hgenuine : Genuine owner net)
    (hallowed : move.Allowed owner net) (hshort : move.Short) :
    Community signature (net.step owner move) := by
  cases move with
  | call m op =>
      have hsigned := h.call hgenuine hallowed hshort
      refine ⟨?_, ?_⟩
      · intro n
        simp only [Network.step, Move.at]
        split
        · rename_i hm
          rw [← hm]
          exact hsigned
        · exact h.signed n
      · intro x hx
        rcases List.mem_append.mp hx with hx | hx
        · exact h.carried x hx
        · obtain ⟨p, hp, rfl⟩ := List.mem_map.mp hx
          exact hsigned.sent p (List.mem_of_mem_drop (mem_newSent hp))
  | deliver sender packet source index negative =>
      refine ⟨?_, ?_⟩
      · intro n
        simp only [Network.step, Move.at]
        split
        · exact signed_arrival (h.signed n) negative source index packet
        · exact h.signed n
      · intro x hx
        exact h.carried x ((List.mem_append.mp hx).resolve_right List.not_mem_nil)

omit [DecidableEq ι] in
theorem community_start (signature : UdcSignature) (buffer : ι → MessageBuffer) :
    Community signature (.start (fun _ => signature) buffer) where
  signed n := signed_new signature (buffer n)
  carried x hx := by cases hx

theorem community_after (moves : List (Move ι)) : ∀ net : Network ι, Genuine owner net →
    Community signature net → NetworkRun owner net moves → (∀ move ∈ moves, move.Short) →
      Community signature (net.after owner moves) := by
  induction moves with
  | nil =>
      intro net _ h _ _
      exact h
  | cons move moves ih =>
      intro net hgenuine h hrun hshort
      exact ih _ (genuine_step hgenuine hrun.1)
        (community_step h hgenuine hrun.1 (hshort move List.mem_cons_self)) hrun.2
        fun move' hmove' => hshort move' (List.mem_cons_of_mem _ hmove')

theorem community_run (h : NetworkRun owner (.start (fun _ => signature) buffer) moves)
    (hshort : ∀ move ∈ moves, move.Short) :
    Community signature ((Network.start (fun _ => signature) buffer).after owner moves) :=
  community_after moves _ (genuine_start _ _) (community_start _ _) h hshort

/-- **Servers that share a signature keep it**: over a network that loses, repeats, delays and
reorders as it likes, every datagram that leaves one of them begins with the signature. -/
theorem community_signed (h : NetworkRun owner (.start (fun _ => signature) buffer) moves)
    (hshort : ∀ move ∈ moves, move.Short) :
    (∀ n, (((Network.start (fun _ => signature) buffer).after owner moves).node n).front
        = signature.bytes) ∧
      ∀ x ∈ ((Network.start (fun _ => signature) buffer).after owner moves).sent,
        x.2.bytes.take 4 = signature.bytes :=
  have hcommunity := community_run h hshort
  ⟨fun n => (hcommunity.signed n).front, hcommunity.carried⟩

end Signatures

/-! ### Payloads -/

/-- What a message carries for the application, and how it was to be sent. -/
def Message.payload : Message → Option (UdcMessageType × List UInt8)
  | .unreliable data => some (.unreliableMessage, data)
  | .reliable (.bit _) _ data => some (.reliableMessage, data)
  | _ => none

/-- The same, as it is read from the wire. -/
def UdcMessageId.payload (body : List UInt8) : UdcMessageId → Option (UdcMessageType × List UInt8)
  | .unreliable => some (.unreliableMessage, body)
  | .reliable0 | .reliable1 => some (.reliableMessage, body.drop 4)
  | _ => none

section Payloads

variable {m m' : Message} {front : List UInt8} {reader : UdcSignature} {p : Protocol}
  {address : UdcAddressMux} {time : Milliseconds} {type : UdcMessageType} {data : List UInt8}

theorem payload_eq (m : Message) : m.payload = m.id.payload m.body := by
  cases m with
  | reliable kind timeStamp data =>
      cases kind with
      | reset => rfl
      | bit b =>
          cases b <;>
            simp only [Message.payload, Message.id, Message.body, UdcMessageId.payload,
              List.drop_left' (length_le32 timeStamp)]
  | reliableHandshake kind timeStamp =>
      cases kind with
      | reset => rfl
      | bit b => cases b <;> rfl
  | _ => rfl

/-- A message that is sent whole is read with its payload, whatever signature it carries. -/
theorem payload_read (hfront : front.length = 4) (hshort : 5 + m.body.length < 2 ^ 32)
    (h : decode reader.bytes (wire front m) = some m') : m'.payload = m.payload := by
  obtain ⟨hid, hbody⟩ := decode_wire hfront h
  have hlen : (encode front m).length = 5 + m.body.length := by
    rw [encode, List.length_append, List.length_cons, hfront]
    omega
  rw [hlen, u32_of_lt hshort, Nat.add_sub_cancel_left, List.take_length] at hbody
  rw [payload_eq, payload_eq, hid, hbody]

theorem handshake_no_message (id : UdcEndPointId) (source : UdcAddressMux) (msgIndex : Nat) :
    (p.handshake address time id).report ≠ some (.message source msgIndex data) := by
  unfold Protocol.handshake
  cases p.pendingClients.head? with
  | none => exact (Option.some_ne_none _).symm
  | some r =>
      simp only
      split
      · exact (Option.some_ne_none _).symm
      · split
        · exact (Option.some_ne_none _).symm
        · intro h
          cases h

theorem answer_no_message (timeStamp : Nat) (change : UdcClient → UdcClient)
    (source : UdcAddressMux) (msgIndex : Nat) :
    (p.answer address time timeStamp change).report ≠ some (.message source msgIndex data) := by
  unfold Protocol.answer
  cases p.clientsByAddress.lookup address with
  | none => exact (Option.some_ne_none _).symm
  | some r =>
      simp only
      split
      · exact (Option.some_ne_none _).symm
      · intro h
        simp only at h
        split at h <;> cases h

/-- What is reported as a message is the payload of the message handled. -/
theorem payload_reported {msgIndex : Nat} {source : UdcAddressMux}
    (h : (p.handle address time m).report = some (.message source msgIndex data)) :
    source = address ∧ ∃ type : UdcMessageType,
      m.payload = some (type, data) ∧ msgIndex = type.offset := by
  cases m with
  | unreliable data =>
      cases h
      exact ⟨rfl, .unreliableMessage, rfl, rfl⟩
  | reliable kind timeStamp data =>
      cases kind with
      | reset => cases h
      | bit b =>
          simp only [Protocol.handle, Protocol.reliable] at h
          split at h
          · cases h
            exact ⟨rfl, .reliableMessage, rfl, rfl⟩
          · cases h
  | connectionRequest id => cases h
  | ping timeStamp => cases h
  | connectionHandshake id => exact absurd h (handshake_no_message id source msgIndex)
  | pong timeStamp => exact absurd h (answer_no_message timeStamp id source msgIndex)
  | reliableHandshake kind timeStamp =>
      exact absurd h (answer_no_message timeStamp _ source msgIndex)

end Payloads

/-! ### From the application to the wire -/

/-- In the middle of a call: every client is as it was made, and what its queue holds was there
or is what the call is about. -/
structure Within (op : Op) (s t : UdcServerImpl) : Prop where
  made : ∀ r < s.nextRef, Made r (s.heap r).settings t
  size : t.messageBufferSize = s.messageBufferSize
  byId : (∀ id, op ≠ .disconnect id) → (∀ time, op ≠ .receiveMessages time) →
    t.clientsById = s.clientsById
  queue : ∀ r, ∀ msg ∈ (t.heap r).reliableMessages, msg ∈ (s.heap r).reliableMessages ∨
    ∃ id, op = .sendMessage id msg .reliableMessage ∧ s.clientsById.lookup id = some r

/-- The packet brings a payload to the address of the endpoint it was to be sent to. -/
def Brings (s : UdcServerImpl) (op : Op) (p : Packet) (data : List UInt8) : UdcMessageType → Prop
  | .unreliableMessage => ∃ id r, op = .sendMessage id data .unreliableMessage ∧
      s.clientsById.lookup id = some r ∧ p.address = (s.heap r).outgoingAddress
  | .reliableMessage => ∃ r, data ∈ (s.heap r).reliableMessages ∧
      p.address = (s.heap r).outgoingAddress

section Within

variable {op : Op} {s t t' : UdcServerImpl} {p : Protocol} {c : Change} {r : ClientRef}
  {msg data : List UInt8} {address : UdcAddressMux} {m : Message} {type : UdcMessageType}

theorem Within.refl (op : Op) (s : UdcServerImpl) : Within op s s where
  made _ hr := ⟨hr, rfl⟩
  size := rfl
  byId _ _ := rfl
  queue _ _ hmsg := Or.inl hmsg

/-- A step of a client that is not a push leaves an end of its queue. -/
theorem queue_clientStep {client : UdcClient} (h : p.ClientStep r c client)
    (hpush : ¬ ∃ id data, c = .push id data) :
    client.reliableMessages <:+ (p.heap r).reliableMessages := by
  cases h with
  | same => exact List.suffix_rfl
  | push => exact absurd ⟨_, _, rfl⟩ hpush
  | retry hfront hearly hdue => exact List.suffix_rfl
  | @turn id time hlookup =>
      obtain ⟨state, sent, connected, hturned⟩ := turned_only (p.heap r) time
      rw [hturned]
  | handshake h =>
      rw [receiveConnectionHandshake_eq]
  | pong h =>
      rw [receivePong_eq]
  | @reliableHandshake _ _ kind _ h =>
      rw [receivePong_eq]
      exact queue_acceptHandshake (stateOf kind)

/-- A queue gets a message by a push to the endpoint it belongs to, and in no other way. -/
theorem queue_change (c : Change)
    (hmsg : msg ∈ ((p.change c).state.heap r).reliableMessages) :
    msg ∈ (p.heap r).reliableMessages ∨
      ∃ id, c = .push id msg ∧ p.clientsById.lookup id = some r := by
  by_cases hpush : ∃ id data, c = .push id data
  · obtain ⟨id, data, rfl⟩ := hpush
    simp only [Protocol.change, Protocol.push] at hmsg
    cases hlookup : p.clientsById.lookup id with
    | none =>
        rw [hlookup] at hmsg
        exact Or.inl hmsg
    | some r' =>
        rw [hlookup] at hmsg
        simp only [heap_setClient] at hmsg
        split at hmsg
        · rename_i hr
          subst hr
          rcases List.mem_append.mp hmsg with hold | hnew
          · exact Or.inl hold
          · rw [List.mem_singleton.mp hnew]
            exact Or.inr ⟨id, rfl, hlookup⟩
        · exact Or.inl hmsg
  · left
    by_cases hconnect : ∃ address timeout time, c = .connect address timeout time
    · obtain ⟨address, timeout, time, rfl⟩ := hconnect
      simp only [Protocol.change, Protocol.connect] at hmsg
      split at hmsg
      · exact hmsg
      · by_cases hr : r = p.nextRef
        · subst hr
          simp only [Function.update_self] at hmsg
          cases hmsg
        · simp only [Function.update_of_ne hr] at hmsg
          exact hmsg
    · exact (queue_clientStep (client_step c fun h => absurd h hconnect) hpush).subset hmsg

/-- An endpoint gets its place with a datagram and loses it with a disconnect. -/
theorem clientsById_asks (hasks : op.Asks t c) (hop : ∀ id, op ≠ .disconnect id) :
    (p.change c).state.clientsById = p.clientsById := by
  have heffect := change_effect (p := p) c
  generalize (p.change c).state = p', c.note.toList ++ _ = ns at heffect
  cases heffect with
  | disconnect id =>
      cases hasks
      exact absurd rfl (hop id)
  | accept => cases hasks
  | _ => rfl

theorem within_stage (h : Within op s t) (hstage : Stage op t t') : Within op s t' := by
  refine ⟨fun r hr => made_stage (h.made r hr) hstage, hstage.size.trans h.size, ?_, ?_⟩
  · intro hdisconnect hreceive
    rw [← h.byId hdisconnect hreceive]
    cases hstage with
    | quiet hquiet => exact congrArg Protocol.clientsById hquiet.state
    | call hasks hperf hstate hsends =>
        exact (congrArg Protocol.clientsById (hperf.state.trans hstate)).trans
          (clientsById_asks hasks hdisconnect)
    | turn hop hturn => exact absurd hop (hreceive _)
  · intro r msg hmsg
    rcases hstage.state with hsame | ⟨c, hstate, hc⟩
    · rw [show t'.heap = t.heap from congrArg Protocol.heap hsame] at hmsg
      exact h.queue r msg hmsg
    · rw [show t'.heap = (t.protocol.change c).state.heap from congrArg Protocol.heap hstate]
        at hmsg
      rcases queue_change c hmsg with hold | ⟨id, rfl, hlookup⟩
      · exact h.queue r msg hold
      · rcases hc with hasks | ⟨_, _, _, ⟨⟩⟩
        cases hasks with
        | push id hlen hfits =>
            have hbyId := h.byId (fun _ hop => by cases hop) (fun _ hop => by cases hop)
            refine Or.inr ⟨id, rfl, ?_⟩
            rw [← hbyId]
            exact hlookup

theorem connect_sends (p : Protocol) (address : UdcAddressMux) (timeout : Nat)
    (time : Milliseconds) : (p.change (.connect address timeout time)).sends = [] := by
  simp only [Protocol.change, Protocol.connect]
  split <;> rfl

/-- An unreliable message goes to the endpoint it is for. -/
theorem say_goes {id : UdcEndPointId} {x : UdcAddressMux × Message}
    (hx : x ∈ (p.say id data).sends) : ∃ r, p.clientsById.lookup id = some r ∧
      x = ((p.heap r).outgoingAddress, .unreliable data) := by
  unfold Protocol.say at hx
  cases hlookup : p.clientsById.lookup id with
  | none =>
      rw [hlookup] at hx
      cases hx
  | some r =>
      rw [hlookup] at hx
      simp only at hx
      split at hx
      · exact ⟨r, rfl, List.mem_singleton.mp hx⟩
      · cases hx

/-- **What leaves with a payload brings it where it was to be sent.** -/
theorem Origin.brings {got : List Packet} {packet : Packet} {reader : UdcSignature}
    (h : Origin op t got packet) (hwithin : Within op s t) (hready : Ready s)
    (hqueued : Queued (fun msg => 9 + msg.length ≤ s.messageBufferSize) s.protocol)
    (hshort : ∀ id data type, op = .sendMessage id data type →
      UdcMessageType.offset type + data.length < 2 ^ 32)
    (hread : decode reader.bytes packet.bytes = some m) (hm : m.payload = some (type, data)) :
    Brings s op packet data type := by
  have hplace : ∀ id r, (∀ id, op ≠ .disconnect id) → (∀ time, op ≠ .receiveMessages time) →
      t.protocol.clientsById.lookup id = some r → s.clientsById.lookup id = some r ∧
        (t.protocol.heap r).outgoingAddress = (s.heap r).outgoingAddress := by
    intro id r hdisconnect hreceive hlookup
    have hold : s.clientsById.lookup id = some r := hwithin.byId hdisconnect hreceive ▸ hlookup
    exact ⟨hold, congrArg Settings.outgoingAddress
      (hwithin.made r (hready.rooted.byId id r hold).1).settings⟩
  cases h with
  | @asked c m' hasks hsend hbytes =>
      rw [hbytes] at hread
      have hpayload : 5 + m'.body.length < 2 ^ 32 → m'.payload = some (type, data) := by
        intro hlen
        rw [← payload_read length_front hlen hread, hm]
      cases hasks with
      | connectIPv4 ip port timeout time =>
          rw [connect_sends] at hsend
          cases hsend
      | connectIPv6 ip port timeout time =>
          rw [connect_sends] at hsend
          cases hsend
      | disconnect id => cases hsend
      | push id hlen hfits => cases hsend
      | @say id data' hfits =>
          obtain ⟨r, hlookup, hx⟩ := say_goes hsend
          obtain ⟨haddress, rfl⟩ := Prod.ext_iff.mp hx
          have hsame := hpayload (hshort id data' _ rfl)
          obtain ⟨rfl, rfl⟩ : UdcMessageType.unreliableMessage = type ∧ data' = data :=
            Prod.ext_iff.mp (Option.some.inj hsame)
          obtain ⟨hold, houtgoing⟩ :=
            hplace id r (fun _ hop => by cases hop) (fun _ hop => by cases hop) hlookup
          exact ⟨id, r, rfl, hold, haddress.trans houtgoing⟩
      | poll time =>
          obtain ⟨id, hx⟩ := poll_sends hsend
          rw [show m' = _ from hx] at hpayload
          cases hpayload (by simp only [Message.body, length_le32]; decide)
      | tick time order id =>
          obtain ⟨r, hlookup, haddress, hx | hx⟩ := tick_sends hsend
          · rw [show m' = _ from hx] at hpayload
            cases hpayload (by simp only [Message.body, length_le32]; decide)
          · rcases mem_sendReliable hx with ⟨-, hx⟩ | ⟨-, msg, hfront, hx⟩
            · rw [show m' = _ from hx] at hpayload
              cases hpayload (by simp only [Message.body, length_le32]; decide)
            · obtain ⟨hold, houtgoing⟩ :=
                hplace id r (fun _ hop => by cases hop) (fun _ hop => by cases hop) hlookup
              have hmsg : msg ∈ (s.heap r).reliableMessages := by
                refine (hwithin.queue r msg (List.mem_of_head? hfront)).resolve_right ?_
                rintro ⟨id', hop, -⟩
                cases hop
              have hroom : 9 + msg.length ≤ s.messageBufferSize := hqueued r msg hmsg
              have hsize := size_lt s
              rw [show m' = _ from hx] at hpayload
              have hsame := hpayload (by
                simp only [Message.body, List.length_append, length_le32]
                omega)
              obtain ⟨rfl, rfl⟩ : UdcMessageType.reliableMessage = type ∧ msg = data :=
                Prod.ext_iff.mp (Option.some.inj hsame)
              exact ⟨r, hmsg, haddress.trans houtgoing⟩
  | @reply time q m₀ m' hop hgot hreadq hsend hbytes =>
      have hwire : packet.bytes = wire t.packetSignature.bytes m' := by
        rw [hbytes, wire_word t.packetSignature.size (handle_replies hsend).2.1]
      rw [hwire] at hread
      have hnone : m'.payload = none := by
        rcases handle_answers hsend with ⟨i, -, hx⟩ | ⟨timeStamp, hx⟩ | ⟨kind, timeStamp, hx⟩
        · rw [show m' = .connectionHandshake i from (Prod.ext_iff.mp hx).2]
          rfl
        · rw [show m' = _ from hx]
          rfl
        · rw [show m' = _ from hx]
          rfl
      have hlen : 5 + m'.body.length < 2 ^ 32 := by
        rw [(handle_replies hsend).2.1]
        omega
      rw [payload_read t.packetSignature.size hlen hread, hnone] at hm
      cases hm

end Within

/-! ### From one application to another -/

/-- The application at `k` has handed the payload over, for an endpoint with this address. -/
def Meant {ι : Type} [DecidableEq ι] (owner : UdcAddressMux → Option ι) (start : Network ι)
    (moves : List (Move ι)) (k : ι) (data : List UInt8) (address : UdcAddressMux)
    (type : UdcMessageType) : Prop :=
  ∃ before after id r, moves = before ++ .call k (.sendMessage id data type) :: after ∧
    ((start.after owner before).node k).clientsById.lookup id = some r ∧
    (((start.after owner before).node k).heap r).outgoingAddress = address

section Authentic

variable {ι : Type} [DecidableEq ι] {owner : UdcAddressMux → Option ι} {start : Network ι}
  {moves moves' : List (Move ι)} {signature : UdcSignature} {buffer : ι → MessageBuffer} {n k : ι}
  {s t : UdcServerImpl} {op : Op} {p : Packet} {data : List UInt8} {address : UdcAddressMux}
  {type : UdcMessageType} {m : Message} {reader : UdcSignature} {r : ClientRef} {msg : List UInt8}
  {time : Milliseconds} {e : UdcEvent}

theorem within_step (hadm : op.Admissible s) : Within op s (UdpConnect.step s op).1 :=
  step_stages (P := Within op s) hadm (fun _ _ => within_stage) (.refl op s)

/-- What a call sends brings the payloads it carries where they were to be sent. -/
theorem brings_step (hready : Ready s) (hadm : op.Admissible s)
    (hqueued : Queued (fun msg => 9 + msg.length ≤ s.messageBufferSize) s.protocol)
    (hshort : ∀ id data type, op = .sendMessage id data type →
      UdcMessageType.offset type + data.length < 2 ^ 32)
    (hp : p ∈ newSent s (UdpConnect.step s op).1)
    (hread : decode reader.bytes p.bytes = some m) (hm : m.payload = some (type, data)) :
    Brings s op p data type := by
  have hall := step_stages (s := s)
    (P := fun t => Ready t ∧ Within op s t ∧ ∃ new,
      t.socket.history.sent = s.socket.history.sent ++ new ∧
        ∀ p ∈ new, ∀ (reader : UdcSignature) (m : Message) type data,
          decode reader.bytes p.bytes = some m → m.payload = some (type, data) →
            Brings s op p data type) hadm ?_
    ⟨hready, .refl op s, [], (List.append_nil _).symm, fun p hp => by cases hp⟩
  · obtain ⟨-, -, new, hsent, hnew⟩ := hall
    rw [newSent_eq hsent] at hp
    exact hnew p hp reader m type data hread hm
  · rintro t t' ⟨hready', hwithin, new, hsent, hnew⟩ hstage
    obtain ⟨new', got, hsent', -, horigin⟩ := stage_origin hready' hstage
    refine ⟨ready_stage hready' hstage, within_stage hwithin hstage, new ++ new', ?_, ?_⟩
    · rw [hsent', hsent, List.append_assoc]
    · intro p hp reader m type data hread hm
      rcases List.mem_append.mp hp with hp | hp
      · exact hnew p hp reader m type data hread hm
      · exact (horigin p hp).brings hwithin hready hqueued hshort hread hm

theorem Meant.append (h : Meant owner start moves k data address type) (more : List (Move ι)) :
    Meant owner start (moves ++ more) k data address type := by
  obtain ⟨before, after, id, r, hmoves, hcall⟩ := h
  exact ⟨before, after ++ more, id, r, by rw [hmoves, List.append_assoc, List.cons_append], hcall⟩

/-- **Whatever waits in a queue was handed over for the endpoint the queue belongs to.** -/
theorem queue_meant (moves : List (Move ι))
    (h : NetworkRun owner (.start (fun _ => signature) buffer) moves)
    (hmsg : msg ∈ ((((Network.start (fun _ => signature) buffer).after owner moves).node
      k).heap r).reliableMessages) :
    r < (((Network.start (fun _ => signature) buffer).after owner moves).node k).nextRef ∧
      Meant owner (.start (fun _ => signature) buffer) moves k msg
        ((((Network.start (fun _ => signature) buffer).after owner moves).node
          k).heap r).outgoingAddress .reliableMessage := by
  induction moves using List.reverseRecOn generalizing k r msg with
  | nil => cases hmsg
  | append_singleton moves move ih =>
      obtain ⟨hrun, hlast⟩ := networkRun_append h
      have hready : ∀ k, Ready (((Network.start (fun _ => signature) buffer).after owner
        moves).node k) := fun _ => ready_run hrun
      rw [after_append] at hmsg ⊢
      generalize hnet : (Network.start (fun _ => signature) buffer).after owner moves = net at *
      have hnow : net.after owner [move] = net.step owner move := rfl
      rw [hnow] at hmsg ⊢
      cases move with
      | call k' op =>
          by_cases hk : k' = k
          · subst hk
            rw [node_call] at hmsg ⊢
            have hwithin := within_step hlast.1.1
            rcases hwithin.queue r msg hmsg with hold | ⟨id, rfl, hlookup⟩
            · obtain ⟨hr, hmeant⟩ := ih hrun hold
              have hmade := hwithin.made r hr
              have houtgoing : ((next (net.node k') op).heap r).outgoingAddress
                  = ((net.node k').heap r).outgoingAddress :=
                congrArg Settings.outgoingAddress hmade.settings
              rw [houtgoing]
              exact ⟨hmade.lt, hmeant.append _⟩
            · have hmade := hwithin.made r ((hready k').rooted.byId id r hlookup).1
              have houtgoing : ((next (net.node k') (.sendMessage id msg .reliableMessage)).heap
                  r).outgoingAddress = ((net.node k').heap r).outgoingAddress :=
                congrArg Settings.outgoingAddress hmade.settings
              refine ⟨hmade.lt, moves, [], id, r, rfl, ?_⟩
              rw [hnet, houtgoing]
              exact ⟨hlookup, rfl⟩
          · have hsame : (net.step owner (.call k' op)).node k = net.node k := by
              simp only [Network.step, Move.at, if_neg hk]
              rfl
            rw [hsame] at hmsg ⊢
            obtain ⟨hr, hmeant⟩ := ih hrun hmsg
            exact ⟨hr, hmeant.append _⟩
      | deliver sender packet source index negative =>
          have hsame : ∃ socket,
              (net.step owner (.deliver sender packet source index negative)).node k
                = { net.node k with socket := socket } := by
            simp only [Network.step, Move.at]
            split
            · exact step_arrivalFrom (net.node k) negative source index packet
            · exact ⟨(net.node k).socket, rfl⟩
          obtain ⟨socket, hsame⟩ := hsame
          rw [hsame] at hmsg ⊢
          obtain ⟨hr, hmeant⟩ := ih hrun hmsg
          exact ⟨hr, hmeant.append _⟩

/-- A message that is reported is the payload of a datagram that was waiting. -/
theorem message_received {source : UdcAddressMux} {msgIndex : Nat}
    (hevent : (s.receiveMessages time).2 = some e)
    (hreport : e.report (s.receiveMessages time).1.messageBuffer = .message source msgIndex data) :
    ∃ name, ∃ q ∈ s.socket.inbox name, q.address = source ∧ ∃ m type,
      decode s.packetSignature.bytes q.bytes = some m ∧ m.payload = some (type, data) ∧
        msgIndex = type.offset := by
  have hall := receiveMessages_rule (s := s) time
    (P := fun t => t.packetSignature = s.packetSignature ∧
      ∀ name, ∀ q ∈ t.socket.inbox name, q ∈ s.socket.inbox name)
    (Q := fun t event => ∀ e, event = some e → ∀ source msgIndex data,
      e.report t.messageBuffer = .message source msgIndex data →
        ∃ name, ∃ q ∈ s.socket.inbox name, q.address = source ∧ ∃ m type,
          decode s.packetSignature.bytes q.bytes = some m ∧ m.payload = some (type, data) ∧
            msgIndex = UdcMessageType.offset type)
    (C := fun _ => True) ?_ ?_ ?_ (fun _ _ => trivial) ⟨rfl, fun _ _ hq => hq⟩
  · exact hall e hevent source msgIndex data hreport
  · intro t t' _ _ e he
    cases he
  · rintro t q t' ⟨hsignature, hsub⟩ hturn -
    refine ⟨hturn.signature.trans hsignature, fun name q' hq' => hsub name q' ?_⟩
    rcases hturn.drained name with hsame | ⟨taken, htaken⟩
    · rwa [hsame] at hq'
    · rw [htaken]
      exact List.mem_cons_of_mem _ hq'
  · rintro t q t' e ⟨hsignature, hsub⟩ hturn - e' ⟨⟩ source msgIndex data hreport
    obtain ⟨name, hname⟩ := hturn.taken
    have hq : q ∈ t.socket.inbox name := by
      rw [hname]
      exact List.mem_cons_self
    have hreaction := hturn.report
    rw [Option.map_some, hreport] at hreaction
    unfold Protocol.react at hreaction
    rw [hsignature] at hreaction
    cases hm : decode s.packetSignature.bytes q.bytes with
    | none =>
        rw [hm] at hreaction
        cases hreaction
    | some m =>
        rw [hm] at hreaction
        obtain ⟨haddress, type, hpayload, hindex⟩ := payload_reported hreaction.symm
        exact ⟨name, q, hsub name q hq, haddress.symm, m, type, hm, hpayload, hindex⟩

/-- **No payload is made up.**  Whatever a server reports as a message, the application of the
server it is reported from has handed over, byte for byte, for an endpoint with an address of
the server that reports it, and by the call that is for this kind of message. -/
theorem message_authentic (h : NetworkRun owner (.start (fun _ => signature) buffer) moves)
    (hshort : ∀ move ∈ moves, move.Short)
    (hs : s = ((Network.start (fun _ => signature) buffer).after owner moves).node n)
    {source : UdcAddressMux} {msgIndex : Nat} (hevent : (s.receiveMessages time).2 = some e)
    (hreport : e.report (s.receiveMessages time).1.messageBuffer = .message source msgIndex data) :
    ∃ k address, ∃ type : UdcMessageType, owner source = some k ∧ owner address = some n ∧
      msgIndex = type.offset ∧
        Meant owner (.start (fun _ => signature) buffer) moves k data address type := by
  obtain ⟨name, q, hq, hsource, m, type, hread, hpayload, hindex⟩ :=
    message_received hevent hreport
  rw [hs] at hq
  obtain ⟨k, p, hsent, howner, hnode, hbytes⟩ := genuine_run h n name q hq
  rw [hbytes] at hread
  obtain ⟨before, op, after, rfl, hbefore, hadm, hleaving⟩ := sent_in_run h hsent
  have hcommunity := community_run hbefore fun move hmove =>
    hshort move (List.mem_append_left _ hmove)
  have hbrings := brings_step (ready_run hbefore) hadm (hcommunity.signed k).queued
    (fun id data type hop => by
      have hmove := hshort (.call k op) (List.mem_append_right _ List.mem_cons_self)
      rw [hop] at hmove
      exact hmove)
    (mem_newSent hleaving) hread hpayload
  refine ⟨k, p.address, type, hsource ▸ howner, hnode, hindex, ?_⟩
  cases type with
  | unreliableMessage =>
      obtain ⟨id, r, rfl, hlookup, haddress⟩ := hbrings
      exact ⟨before, after, id, r, rfl, hlookup, haddress.symm⟩
  | reliableMessage =>
      obtain ⟨r, hmsg, haddress⟩ := hbrings
      rw [haddress]
      exact (queue_meant before hbefore hmsg).2.append _

end Authentic

theorem community_signed_answered :
    (∀ n, ((exampleNetwork.after exampleOwner answeredMoves).node n).front = [1, 2, 3, 4]) ∧
      ∀ x ∈ (exampleNetwork.after exampleOwner answeredMoves).sent,
        x.2.bytes.take 4 = [1, 2, 3, 4] :=
  community_signed (show NetworkRun exampleOwner exampleNetwork answeredMoves by decide +kernel)
    (by decide)

/-- The connection is used for a reliable message, which is on its way. -/
def messageMoves : List (Move Bool) :=
  answeredMoves ++ [.call false (.receiveMessages exampleTime),
    .call false (.sendMessage 1 [7] .reliableMessage),
    .call false (.updateClientConnectionStatus exampleTime [1]),
    .deliver false
      ⟨⟨.ipv4 (exampleIP 2), 2⟩, [1, 2, 3, 4, 6] ++ le32 (u32 exampleTime) ++ [7], default⟩
      ⟨.ipv4 (exampleIP 1), 1⟩ 0]

theorem message_authentic_reliable : ∃ address,
    exampleOwner address = some true ∧
      Meant exampleOwner exampleNetwork messageMoves false [7] address .reliableMessage := by
  have hevent : ∃ e, (((exampleNetwork.after exampleOwner messageMoves).node
      true).receiveMessages exampleTime).2 = some e ∧
      e.report (((exampleNetwork.after exampleOwner messageMoves).node
        true).receiveMessages exampleTime).1.messageBuffer
          = .message ⟨.ipv4 (exampleIP 1), 1⟩ 9 [7] := by
    refine ⟨⟨.receiveMessageIPv4, 0, .ipv4 (exampleIP 1), 1, 9, 1⟩, by decide +kernel, ?_⟩
    have hdata : slice (((exampleNetwork.after exampleOwner messageMoves).node
        true).receiveMessages exampleTime).1.messageBuffer.bytes 9 1 = [7] := by decide +kernel
    exact congrArg (Report.message ⟨.ipv4 (exampleIP 1), 1⟩ 9) hdata
  obtain ⟨e, hevent, hreport⟩ := hevent
  obtain ⟨k, address, type, hk, haddress, htype, hmeant⟩ := message_authentic
    (show NetworkRun exampleOwner exampleNetwork messageMoves by decide +kernel)
    (by decide) rfl hevent hreport
  cases type with
  | unreliableMessage => cases htype
  | reliableMessage =>
      cases hk
      exact ⟨address, haddress, hmeant⟩

end UdpConnect
