import ProofOfAuthority.Proofs.Encoding
import ProofOfAuthority.Receipt

/-!
# What the hash of a receipt covers

A receipt lists the outputs of its clauses, an output lists events and then transfers, an event
lists topics, and between one list and the next there is nothing but the length that stands before
each. That is enough: the bytes of a receipt say which transfer belongs to which output, and where
the topics of an event end and its data begins.

The lemmas go up the nesting, one for each kind of item, and each of them holds whatever bytes come
after the item.

* `separates_event`, `separates_transfer`, `separates_output`, `separates_receipt` — the items.
* `Receipt.encode_injective` — the encoding fixes every field.
-/

namespace ProofOfAuthority

/-! ## Lengths -/

/-- Fewer than `2 ^ 64` topics and bytes of data. -/
structure Event.Counted (e : Event) : Prop where
  topics : e.topics.length < UInt64.size
  data : e.data.length < UInt64.size

instance (e : Event) : Decidable e.Counted :=
  decidable_of_iff (e.topics.length < UInt64.size ∧ e.data.length < UInt64.size)
    ⟨fun ⟨h1, h2⟩ => ⟨h1, h2⟩, fun ⟨h1, h2⟩ => ⟨h1, h2⟩⟩

/-- Fewer than `2 ^ 64` events and transfers, with each event `Counted`. -/
structure Output.Counted (o : Output) : Prop where
  events : o.events.length < UInt64.size
  transfers : o.transfers.length < UInt64.size
  each : ∀ e ∈ o.events, e.Counted

instance (o : Output) : Decidable o.Counted :=
  decidable_of_iff (o.events.length < UInt64.size ∧ o.transfers.length < UInt64.size ∧
      ∀ e ∈ o.events, e.Counted)
    ⟨fun ⟨h1, h2, h3⟩ => ⟨h1, h2, h3⟩, fun ⟨h1, h2, h3⟩ => ⟨h1, h2, h3⟩⟩

/-- Fewer than `2 ^ 64` outputs, each of them `Counted`: what `encode` counts fits in a word. -/
structure Receipt.Counted (r : Receipt) : Prop where
  outputs : r.outputs.length < UInt64.size
  each : ∀ o ∈ r.outputs, o.Counted

instance (r : Receipt) : Decidable r.Counted :=
  decidable_of_iff (r.outputs.length < UInt64.size ∧ ∀ o ∈ r.outputs, o.Counted)
    ⟨fun ⟨h1, h2⟩ => ⟨h1, h2⟩, fun ⟨h1, h2⟩ => ⟨h1, h2⟩⟩

/-! ## Items -/

theorem separates_event {e f : Event} (he : e.Counted) (hf : f.Counted) :
    Separates Event.encode e f := by
  intro s t h
  simp only [Event.encode, List.append_assoc] at h
  obtain ⟨haddress, h⟩ := separates_toList e.address f.address _ _ h
  obtain ⟨htopics, h⟩ :=
    separates_list he.topics hf.topics (fun a _ b _ => separates_toList a b) _ _ h
  obtain ⟨hdata, htail⟩ := separates_bytes he.data hf.data _ _ h
  refine ⟨?_, htail⟩
  cases e
  cases f
  rw [Event.mk.injEq]
  exact ⟨haddress, htopics, hdata⟩

theorem separates_transfer (a b : Transfer) : Separates Transfer.encode a b := by
  intro s t h
  simp only [Transfer.encode, List.append_assoc] at h
  obtain ⟨hsender, h⟩ := separates_toList a.sender b.sender _ _ h
  obtain ⟨hrecipient, h⟩ := separates_toList a.recipient b.recipient _ _ h
  obtain ⟨hamount, htail⟩ := separates_amount a.amount b.amount _ _ h
  refine ⟨?_, htail⟩
  cases a
  cases b
  rw [Transfer.mk.injEq]
  exact ⟨hsender, hrecipient, hamount⟩

theorem separates_output {o p : Output} (ho : o.Counted) (hp : p.Counted) :
    Separates Output.encode o p := by
  intro s t h
  simp only [Output.encode, List.append_assoc] at h
  obtain ⟨hevents, h⟩ := separates_list ho.events hp.events
    (fun e he f hf => separates_event (ho.each e he) (hp.each f hf)) _ _ h
  obtain ⟨htransfers, htail⟩ :=
    separates_list ho.transfers hp.transfers (fun a _ b _ => separates_transfer a b) _ _ h
  refine ⟨?_, htail⟩
  cases o
  cases p
  rw [Output.mk.injEq]
  exact ⟨hevents, htransfers⟩

theorem separates_receipt {q r : Receipt} (hq : q.Counted) (hr : r.Counted) :
    Separates Receipt.encode q r := by
  intro s t h
  simp only [Receipt.encode, List.append_assoc] at h
  obtain ⟨hgas, h⟩ := separates_word64 q.gasUsed r.gasUsed _ _ h
  obtain ⟨hpayer, h⟩ := separates_toList q.gasPayer r.gasPayer _ _ h
  obtain ⟨hpaid, h⟩ := separates_amount q.paid r.paid _ _ h
  obtain ⟨hreward, h⟩ := separates_amount q.reward r.reward _ _ h
  obtain ⟨hreverted, h⟩ := separates_flag q.reverted r.reverted _ _ h
  obtain ⟨houtputs, htail⟩ := separates_list hq.outputs hr.outputs
    (fun o ho p hp => separates_output (hq.each o ho) (hr.each p hp)) _ _ h
  refine ⟨?_, htail⟩
  cases q
  cases r
  rw [Receipt.mk.injEq]
  exact ⟨hgas, hpayer, hpaid, hreward, hreverted, houtputs⟩

/-- **The encoding fixes the receipt.** A `hash` is the digest of `encode`, and two `Counted`
receipts have one `encode` exactly if they agree in every field. -/
theorem Receipt.encode_injective {q r : Receipt} (hq : q.Counted) (hr : r.Counted) :
    q.hash = keccak256 q.encode ∧ (q.encode = r.encode ↔ q = r) :=
  ⟨rfl, (separates_receipt hq hr).eq, congrArg encode⟩

/-! ## A transfer that moves -/

namespace Sample

/-- The receipt of two clauses with these outputs. -/
def withOutputs (first second : Output) : Receipt :=
  ⟨21000, Bytes.ofNat 1, Amount.saturating 7, Amount.saturating 2, false, [first, second]⟩

/-- A transfer of nothing, whose bytes are all zero. -/
def nothing : Transfer := ⟨Bytes.zero, Bytes.zero, Amount.zero⟩

/-- An event with as many topics and as much data as given. -/
def eventOf (topics data : Nat) : Event :=
  ⟨Bytes.zero, List.replicate topics Bytes.zero, List.replicate data 0⟩

/-- An event with two topics and no data, and a transfer in the first output. -/
def gathered : Receipt := withOutputs ⟨[eventOf 2 0], [nothing]⟩ ⟨[], []⟩

/-- An event with one topic and the other as data, and the transfer in the second output. -/
def spread : Receipt := withOutputs ⟨[eventOf 1 32], []⟩ ⟨[], [nothing]⟩

/-- As many bytes, and all of them zero but for lengths, yet not the same. -/
theorem gathered_ne_spread : gathered.Counted ∧ spread.Counted ∧
    gathered.encode.length = spread.encode.length ∧ gathered.encode ≠ spread.encode := by
  have hgathered : gathered.Counted := by decide
  have hspread : spread.Counted := by decide
  refine ⟨hgathered, hspread, by decide +kernel, fun h => ?_⟩
  exact absurd ((Receipt.encode_injective hgathered hspread).2.mp h) (by decide)

end Sample

end ProofOfAuthority
