import PerpDex.Proofs.Account.Acceptance

/-! Data refused for their length. A layout reports the length of the data and one that it accepts,
but for the event queues of the spot market, which report the length between the markers. -/
namespace PerpDex

variable {data : Bytes} {name : String} {expected actual n : Nat}

theorem Header.check_eq_error_iff (header : Header) (kind : AccountKind) {e : Error} :
    header.check kind = .error e ↔
      header.kindByte ≠ kind.toByte ∧ e = .wrongAccountKind kind header.kindByte := by
  unfold check
  split <;> simp_all [eq_comm]

theorem MarginAccount.readOrders_ne_sizeMismatch (data : Bytes) (slots : List Nat) :
    readOrders data slots ≠ .error (.sizeMismatch name expected actual) := by
  rw [readOrders_eq]
  split <;> simp

theorem Node.decode_ne_sizeMismatch (whole : data.length = size) :
    decode data ≠ .error (.sizeMismatch name expected actual) := by
  rw [decode, checkSize, if_pos whole]
  simp only [bind, Except.bind, pure, Except.pure, throw, throwThe, MonadExceptOf.throw]
  repeat' split
  all_goals simp

theorem BookSide.length_slot (whole : data.length = size) {i : Nat} (inside : i < capacity) :
    (slot data i).length = Node.size := by
  refine Bytes.length_slice_of_le ?_
  rw [whole]
  simp only [capacity, size, headerSize, Node.size] at inside ⊢
  omega

theorem BookSide.decode_ne_sizeMismatch (whole : data.length = size) :
    decode data ≠ .error (.sizeMismatch name expected actual) := by
  intro refused
  cases known : (Header.read data).kind?.bind sideOf? with
  | none =>
    rw [decode, checkSize, if_pos whole] at refused
    simp [bind, Except.bind, known, throw, throwThe, MonadExceptOf.throw] at refused
  | some side =>
    rw [decode_of_kind whole ((kind?_bind_sideOf?_eq_some_iff _ side).mp known)] at refused
    obtain ⟨i, inside, refused⟩ :=
      Bytes.exists_of_mapM_chunks_eq_error (map_eq_error_iff.mp refused)
    rw [Bytes.slice_drop] at refused
    -- The slots have their size if all of the data has, so their own check passes.
    exact Node.decode_ne_sizeMismatch (length_slot whole inside) refused

theorem Framing.unwrap_eq_sizeMismatch_iff :
    unwrap data = .error (.sizeMismatch name expected actual) ↔
      data.length < size ∧ name = "serum account" ∧ expected = size ∧ actual = data.length := by
  unfold unwrap
  dsimp only
  split
  · simp_all [size, eq_comm]
  · split
    · simp_all [size]
    · split <;> simp_all [size]

namespace EventQueue

variable {ε : Type} {layout : String} {size : Nat} {checkHeader : Header → Except Error Unit}
  {decode : Nat → Bytes → Except Error ε} {read : Nat → Bytes → ε}

def wholeLength (size n : Nat) : Nat := headerSize + (n - headerSize) / size * size

theorem decodeRing_eq_sizeMismatch_iff (total : Total size decode read)
    (silent : ∀ header, checkHeader header ≠ .error (.sizeMismatch name expected actual)) :
    decodeRing layout size checkHeader decode data = .error (.sizeMismatch name expected actual) ↔
      data.length ≠ wholeLength size data.length ∧ name = layout ∧
        expected = wholeLength size data.length ∧ actual = data.length := by
  rw [decodeRing_eq layout checkHeader total]
  dsimp only
  split
  · simp_all [wholeLength, eq_comm]
  · rename_i whole
    refine iff_of_false ?_ fun report => whole report.1
    cases checked : checkHeader (Header.read data) with
    | error e => simpa [Except.bind, checked] using silent (Header.read data)
    | ok u =>
      simp only [Except.bind]
      split <;> simp

theorem wholeLength_eq_self_iff (pos : 0 < size) :
    wholeLength size n = n ↔ ∃ slots, n = headerSize + size * slots := by
  constructor
  · intro whole
    exact ⟨(n - headerSize) / size, by rw [Nat.mul_comm]; exact whole.symm⟩
  · rintro ⟨slots, rfl⟩
    rw [wholeLength, Nat.add_sub_cancel_left, Nat.mul_div_cancel_left slots pos, Nat.mul_comm]

theorem wholeLength_wholeLength (pos : 0 < size) :
    wholeLength size (wholeLength size n) = wholeLength size n :=
  (wholeLength_eq_self_iff pos).mpr ⟨(n - headerSize) / size, by rw [wholeLength, Nat.mul_comm]⟩

end EventQueue

namespace Layout

variable {layout : Layout}

theorem decode_of_length_ne (fixed : layout.size? = some n) (differs : data.length ≠ n) :
    layout.decode data = .error (.sizeMismatch layout.name n data.length) := by
  have refused (name : String) :
      checkSize name n data = .error (.sizeMismatch name n data.length) := if_neg differs
  cases layout <;> cases fixed
  all_goals
    simp only [decode, Group.decode, PriceCache.decode, RootBank.decode, NodeBank.decode,
      MarginAccount.decode, OpenOrders.decode, PerpMarket.decode, BookSide.decode, refused]
    rfl

theorem decode_ne_sizeMismatch (fixed : layout.size? = some data.length) :
    layout.decode data ≠ .error (.sizeMismatch name expected actual) := by
  intro refused
  cases layout with
  | openOrders =>
    have whole := Option.some.inj fixed
    simp only [decode, OpenOrders.decode, map_eq_error_iff, bind_eq_error_iff,
      checkSize_eq_error_iff, Framing.unwrap_eq_sizeMismatch_iff] at refused
    obtain ⟨differs, -⟩ | ⟨-, -, ⟨short, -⟩ | ⟨_, -, impossible⟩⟩ := refused
    · exact differs whole.symm
    · have room : Framing.size < OpenOrders.size := by decide
      omega
    · cases impossible
  | bookSide =>
    have whole := Option.some.inj fixed
    exact BookSide.decode_ne_sizeMismatch whole.symm (map_eq_error_iff.mp refused)
  | perpEventQueue => cases fixed
  | spotEventQueue => cases fixed
  | _ =>
    have whole := Option.some.inj fixed
    simp only [decode, Group.decode, PriceCache.decode, RootBank.decode, NodeBank.decode,
      MarginAccount.decode, PerpMarket.decode, map_eq_error_iff, bind_eq_error_iff,
      checkSize_eq_error_iff, Header.check_eq_error_iff, whole] at refused
    simp [pure, Except.pure, MarginAccount.readOrders_ne_sizeMismatch] at refused

theorem fixed_reports (fixed : layout.size? = some n) :
    layout.decode data = .error (.sizeMismatch name expected actual) ↔
      data.length ≠ n ∧ name = layout.name ∧ expected = n ∧ actual = data.length := by
  by_cases whole : data.length = n
  · have silent : layout.decode data ≠ .error (.sizeMismatch name expected actual) :=
      decode_ne_sizeMismatch (whole ▸ fixed)
    simp [silent, whole]
  · rw [decode_of_length_ne fixed whole]
    simp [whole, eq_comm]

theorem perp_reports :
    perpEventQueue.decode data = .error (.sizeMismatch name expected actual) ↔
      data.length ≠ EventQueue.wholeLength PerpEvent.size data.length ∧
        name = perpEventQueue.name ∧ expected = EventQueue.wholeLength PerpEvent.size data.length ∧
        actual = data.length := by
  rw [decode, map_eq_error_iff, PerpEventQueue.decode]
  refine EventQueue.decodeRing_eq_sizeMismatch_iff PerpEvent.total fun header refused => ?_
  simp [Header.check_eq_error_iff] at refused

theorem spot_reports :
    spotEventQueue.decode data = .error (.sizeMismatch name expected actual) ↔
      data.length < Framing.size ∧ name = "serum account" ∧ expected = Framing.size ∧
          actual = data.length ∨
        ∃ body, data = Framing.wrap body ∧
          body.length ≠ EventQueue.wholeLength SpotEvent.size body.length ∧
          name = spotEventQueue.name ∧
          expected = EventQueue.wholeLength SpotEvent.size body.length ∧ actual = body.length := by
  rw [decode, map_eq_error_iff, SpotEventQueue.decode, bind_eq_error_iff,
    Framing.unwrap_eq_sizeMismatch_iff]
  refine or_congr_right (exists_congr fun body => ?_)
  rw [Framing.unwrap_eq_ok_iff, EventQueue.decodeRing_eq_sizeMismatch_iff SpotEvent.total (by simp)]
  rfl

theorem fits_fixed_iff {m : Nat} (fixed : layout.size? = some n) : layout.Fits m ↔ m = n := by
  cases layout with
  | perpEventQueue => cases fixed
  | spotEventQueue => cases fixed
  | _ => exact ⟨fun fits => Option.some.inj (fits.symm.trans fixed), fun same => same ▸ fixed⟩

theorem fits_perp_iff :
    perpEventQueue.Fits n ↔ EventQueue.wholeLength PerpEvent.size n = n :=
  (EventQueue.wholeLength_eq_self_iff (by decide)).symm

theorem fits_spot_iff :
    spotEventQueue.Fits (Framing.size + n) ↔ EventQueue.wholeLength SpotEvent.size n = n := by
  rw [EventQueue.wholeLength_eq_self_iff (by decide)]
  refine exists_congr fun slots => ?_
  rw [Nat.add_assoc, Nat.add_left_cancel_iff]

/-- The layouts with one length, and the two queues. -/
theorem size?_cases (layout : Layout) :
    (∃ n, layout.size? = some n) ∨ layout = perpEventQueue ∨ layout = spotEventQueue := by
  cases layout <;> simp [size?]

theorem not_fits_frame : ¬spotEventQueue.Fits Framing.size := by
  rintro ⟨slots, whole⟩
  have bare : 12 = 44 + SpotEvent.size * slots := whole
  omega

/-- A refusal for the length gives the length of the data and another one, which is accepted. Queues
of the spot market give the lengths without the markers; for data too short for the markers they ask
for the length of the markers, which is not accepted. -/
theorem size_reports (layout : Layout) (data : Bytes) (name : String) (expected actual : Nat)
    (refused : layout.decode data = .error (.sizeMismatch name expected actual)) :
    expected ≠ actual ∧ ¬layout.Accepts data.length ∧
      if layout = spotEventQueue then
        name = "serum account" ∧ actual = data.length ∧ actual < expected ∧
            expected = Framing.size ∧ ¬layout.Accepts expected ∨
          ∃ body, data = Framing.wrap body ∧ name = layout.name ∧ actual = body.length ∧
            layout.Accepts (Framing.size + expected)
      else name = layout.name ∧ actual = data.length ∧ layout.Accepts expected := by
  simp only [accepts_iff_fits]
  obtain ⟨n, fixed⟩ | rfl | rfl := layout.size?_cases
  · obtain ⟨differs, rfl, rfl, rfl⟩ := (fixed_reports fixed).mp refused
    have other : layout ≠ spotEventQueue := by
      rintro rfl
      cases fixed
    rw [if_neg other, fits_fixed_iff fixed, fits_fixed_iff fixed]
    exact ⟨differs.symm, differs, rfl, rfl, rfl⟩
  · obtain ⟨differs, rfl, rfl, rfl⟩ := perp_reports.mp refused
    rw [if_neg (by decide), fits_perp_iff, fits_perp_iff]
    exact ⟨differs.symm, differs.symm, rfl, rfl, EventQueue.wholeLength_wholeLength (by decide)⟩
  · rw [if_pos rfl]
    obtain ⟨short, rfl, rfl, rfl⟩ | ⟨body, rfl, differs, rfl, rfl, rfl⟩ := spot_reports.mp refused
    · refine ⟨Nat.ne_of_gt short, ?_, .inl ⟨rfl, rfl, short, rfl, not_fits_frame⟩⟩
      rintro ⟨slots, whole⟩
      omega
    · rw [Framing.length_wrap, fits_spot_iff]
      exact ⟨differs.symm, differs.symm, .inr ⟨body, rfl, rfl, rfl,
        fits_spot_iff.mpr (EventQueue.wholeLength_wholeLength (by decide))⟩⟩

def oneTooLong : Bytes := Framing.wrap (List.replicate 33 0)

/-- The two queues report the same lengths, of which the one between markers accepts neither. -/
theorem size_reports_oneTooLong :
    (perpEventQueue.decode (List.replicate 33 0) =
          .error (.sizeMismatch "PerpEventQueue" 32 33) ∧ perpEventQueue.Accepts 32) ∧
      spotEventQueue.decode oneTooLong = .error (.sizeMismatch "SpotEventQueue" 32 33) ∧
        spotEventQueue.Accepts 44 ∧
      spotEventQueue.decode [] = .error (.sizeMismatch "serum account" 12 0) ∧
        ¬spotEventQueue.Accepts 12 := by
  have perp : perpEventQueue.decode (List.replicate 33 0) =
      .error (.sizeMismatch "PerpEventQueue" 32 33) := rfl
  have spot : spotEventQueue.decode oneTooLong =
      .error (.sizeMismatch "SpotEventQueue" 32 33) := rfl
  have none : spotEventQueue.decode [] = .error (.sizeMismatch "serum account" 12 0) := rfl
  obtain ⟨-, -, -, -, accepted⟩ := size_reports _ _ _ _ _ perp
  obtain ⟨-, -, ⟨named, -⟩ | ⟨-, -, -, -, framed⟩⟩ := size_reports _ _ _ _ _ spot
  · exact absurd named (by decide)
  · obtain ⟨-, -, ⟨-, -, -, -, refused⟩ | ⟨-, -, named, -⟩⟩ := size_reports _ _ _ _ _ none
    · exact ⟨⟨perp, accepted⟩, spot, framed, none, refused⟩
    · exact absurd named (by decide)

/-- The lengths in a report need not be the length of the data and one that is accepted. -/
theorem size_reports_differ :
    ¬∀ (layout : Layout) (data : Bytes) (name : String) (expected actual : Nat),
      layout.decode data = .error (.sizeMismatch name expected actual) →
        actual = data.length ∧ expected ≠ actual ∧ layout.Accepts expected := by
  intro describe
  obtain ⟨same, -, -⟩ := describe spotEventQueue oneTooLong "SpotEventQueue" 32 33 rfl
  have length : oneTooLong.length = 45 := rfl
  omega

end Layout
end PerpDex
