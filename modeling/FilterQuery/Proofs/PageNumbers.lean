import FilterQuery.Pagination
import FilterQuery.Proofs.Digits

set_option autoImplicit false

/-! # The numbers of a pagination text

A pagination is read out of any text: what counts is the digits directly behind a key, and for each
key the last such number. `KeyedNumber` says where in a text a keyed number stands, without a word
about the search. The search starts anew behind each key that it finds. It misses no number,
because a key starts with a mark that the rest of the key does not have, so that no two keys
overlap (`keyedRows_cons`). -/

namespace FilterQuery.Pagination

open FilterQuery.Text

variable {key text before row : List Char} {c : Char}

/-! ## The search -/

/-- The mark that starts a key does not come again in it. -/
def IsKey (key : List Char) : Prop := ∃ name, key = '$' :: name ∧ '$' ∉ name

theorem isKey_pageKey : IsKey pageKey := ⟨_, rfl, by decide⟩

theorem isKey_sizeKey : IsKey sizeKey := ⟨_, rfl, by decide⟩

theorem keyedRowsFrom_eq (key : List Char) (skip : Nat) (text : List Char) :
    keyedRowsFrom key skip text = keyedRows key (text.drop skip) := by
  induction text generalizing skip with
  | nil => simp [keyedRows, keyedRowsFrom]
  | cons c rest ih =>
    cases skip with
    | zero => rfl
    | succ skip => exact ih skip

theorem keyedRows_of_isPrefixOf_eq_false {rest : List Char}
    (h : key.isPrefixOf (c :: rest) = false) : keyedRows key (c :: rest) = keyedRows key rest := by
  simp [keyedRows, keyedRowsFrom, h]

/-- Text without the mark is passed over. -/
theorem keyedRows_append (hkey : IsKey key) {front : List Char} (hfront : '$' ∉ front)
    (rest : List Char) : keyedRows key (front ++ rest) = keyedRows key rest := by
  obtain ⟨name, rfl, -⟩ := hkey
  induction front with
  | nil => rfl
  | cons c front ih =>
    rw [List.mem_cons, not_or] at hfront
    have hno : ('$' :: name).isPrefixOf (c :: (front ++ rest)) = false := by
      rw [Bool.eq_false_iff, ne_eq, List.isPrefixOf_iff_prefix, List.cons_prefix_cons]
      exact fun h => hfront.1 h.1
    rw [List.cons_append, keyedRows_of_isPrefixOf_eq_false hno, ih hfront.2]

/-- A key is found, and the text behind it is searched like any other text. -/
theorem keyedRows_key_append (hkey : IsKey key) (rest : List Char) :
    keyedRows key (key ++ rest) = rest.takeWhile isDigit :: keyedRows key rest := by
  obtain ⟨name, rfl, hname⟩ := hkey
  have hstarts : ('$' :: name).isPrefixOf ('$' :: (name ++ rest)) = true := by simp
  have hdrop : ('$' :: (name ++ rest)).drop ('$' :: name).length = rest := by simp
  rw [List.cons_append, keyedRows, keyedRowsFrom, if_pos hstarts, keyedRowsFrom_eq, hdrop]
  simp

/-- The search does not depend on where it has started: it looks at every place of the text. -/
theorem keyedRows_cons (hkey : IsKey key) (c : Char) (rest : List Char) :
    keyedRows key (c :: rest) = (if key.isPrefixOf (c :: rest) then
      [((c :: rest).drop key.length).takeWhile isDigit] else []) ++ keyedRows key rest := by
  split
  · next hstarts =>
    obtain ⟨behind, hbehind⟩ := List.isPrefixOf_iff_prefix.1 hstarts
    obtain ⟨name, rfl, hname⟩ := id hkey
    obtain ⟨rfl, hrest⟩ := List.cons.inj hbehind
    obtain rfl : rest = name ++ behind := hrest.symm
    rw [← List.cons_append, keyedRows_key_append hkey, keyedRows_append hkey hname, List.drop_left,
      List.singleton_append]
  · next hstarts => rw [keyedRows_of_isPrefixOf_eq_false (Bool.eq_false_iff.2 hstarts),
      List.nil_append]

/-! ## Keyed numbers -/

/-- Behind `before` stands the key, and behind the key the row of digits: one digit at least, and as
many as there are. -/
def KeyedNumber (key text before row : List Char) : Prop :=
  ∃ after, text = before ++ (key ++ (row ++ after)) ∧ row ≠ [] ∧ (∀ c ∈ row, isDigit c = true) ∧
    ∀ c ∈ after.head?, isDigit c = false

/-- The number of the last key of its kind that has one, or else `fallback`. -/
def LastNumber (key text : List Char) (fallback n : Nat) : Prop :=
  (∃ row before, KeyedNumber key text before row ∧ n = ofDigits row ∧
    ∀ row' before', KeyedNumber key text before' row' → before'.length ≤ before.length) ∨
  (∀ row before, ¬KeyedNumber key text before row) ∧ n = fallback

/-- Every number behind the key fits into a word. -/
def NumbersFit (key text : List Char) : Prop :=
  ∀ row before, KeyedNumber key text before row → ofDigits row < wordLimit

/-- The first number behind the key that does not fit into a word. -/
def FirstBeyond (key text row : List Char) : Prop :=
  ∃ before, KeyedNumber key text before row ∧ wordLimit ≤ ofDigits row ∧
    ∀ row' before', KeyedNumber key text before' row' → wordLimit ≤ ofDigits row' →
      before.length ≤ before'.length

theorem keyedNumber_nil_iff : KeyedNumber key text [] row ↔
    key.isPrefixOf text = true ∧ row = (text.drop key.length).takeWhile isDigit ∧ row ≠ [] := by
  rw [List.isPrefixOf_iff_prefix]
  constructor
  · rintro ⟨after, rfl, hne, hdigits, hafter⟩
    refine ⟨List.prefix_append key _, ?_, hne⟩
    rw [List.nil_append, List.drop_left, (takeWhile_append_eq hdigits hafter).1]
  · rintro ⟨⟨behind, rfl⟩, rfl, hne⟩
    rw [List.drop_left] at hne ⊢
    refine ⟨behind.dropWhile isDigit, by simp, hne, ?_, ?_⟩
    · exact List.all_eq_true.1 List.all_takeWhile
    · intro c hc
      simpa [Option.mem_def.1 hc] using List.head?_dropWhile_not isDigit behind

/-- There is no number in an empty text. -/
theorem not_keyedNumber_empty (hkey : IsKey key) : ¬KeyedNumber key [] before row := by
  obtain ⟨name, rfl, -⟩ := hkey
  rintro ⟨after, h, -⟩
  simp at h

section Cons

variable {rest front : List Char} {fallback : UInt64} {P : List Char → Prop}

theorem keyedNumber_cons_iff : KeyedNumber key (c :: rest) before row ↔
    before = [] ∧ KeyedNumber key (c :: rest) [] row ∨
    ∃ before', before = c :: before' ∧ KeyedNumber key rest before' row := by
  cases before with
  | nil => simp
  | cons d before =>
    simp only [KeyedNumber, List.cons_append, List.cons.injEq, reduceCtorEq, false_and, false_or]
    grind

/-- The places of a number are the front and those of the rest. -/
theorem exists_keyedNumber_cons_iff :
    (∃ before, KeyedNumber key (c :: rest) before row ∧ P before) ↔
      KeyedNumber key (c :: rest) [] row ∧ P [] ∨
      ∃ before, KeyedNumber key rest before row ∧ P (c :: before) := by
  constructor
  · rintro ⟨before, hrow, hP⟩
    rcases keyedNumber_cons_iff.1 hrow with ⟨rfl, hhere⟩ | ⟨before, rfl, hthere⟩
    · exact .inl ⟨hhere, hP⟩
    · exact .inr ⟨before, hthere, hP⟩
  · rintro (⟨hhere, hP⟩ | ⟨before, hthere, hP⟩)
    · exact ⟨[], hhere, hP⟩
    · exact ⟨c :: before, keyedNumber_cons_iff.2 (.inr ⟨before, rfl, hthere⟩), hP⟩

theorem forall_keyedNumber_cons_iff :
    (∀ before, KeyedNumber key (c :: rest) before row → P before) ↔
      (KeyedNumber key (c :: rest) [] row → P []) ∧
      ∀ before, KeyedNumber key rest before row → P (c :: before) := by
  have hexists : (∃ before, KeyedNumber key (c :: rest) before row ∧ ¬P before) ↔ _ :=
    exists_keyedNumber_cons_iff
  simpa using not_congr hexists

/-! ## A number in front, or none -/

/-- There is one number at a place. -/
theorem KeyedNumber.front_iff (h : KeyedNumber key text [] front) :
    KeyedNumber key text [] row ↔ row = front := by
  refine ⟨fun h' => ?_, fun heq => heq ▸ h⟩
  rw [(keyedNumber_nil_iff.1 h).2.1, (keyedNumber_nil_iff.1 h').2.1]

theorem KeyedNumber.keyedRows_eq (hkey : IsKey key) (h : KeyedNumber key (c :: rest) [] front) :
    keyedRows key (c :: rest) = front :: keyedRows key rest := by
  obtain ⟨hstarts, rfl, -⟩ := keyedNumber_nil_iff.1 h
  rw [keyedRows_cons hkey, if_pos hstarts, List.singleton_append]

/-- Where no number stands in front, the search goes on as if nothing were there. -/
theorem lastNumber_of_no_front (hkey : IsKey key)
    (h : ∀ row, ¬KeyedNumber key (c :: rest) [] row) :
    lastNumber fallback (keyedRows key (c :: rest)) =
      lastNumber fallback (keyedRows key rest) := by
  rw [keyedRows_cons hkey]
  split
  · next hstarts =>
    have hempty : ((c :: rest).drop key.length).takeWhile isDigit = [] := by
      by_contra hne
      exact h _ (keyedNumber_nil_iff.2 ⟨hstarts, rfl, hne⟩)
    simp [hempty, lastNumber]
  · rfl

/-- A number in front gives way to any later one. -/
theorem KeyedNumber.lastNumber_iff (h : KeyedNumber key (c :: rest) [] front) {d n : Nat} :
    LastNumber key (c :: rest) d n ↔ LastNumber key rest (ofDigits front) n := by
  simp only [LastNumber, exists_keyedNumber_cons_iff, forall_keyedNumber_cons_iff, h.front_iff]
  simp [exists_or, forall_and, or_comm, and_comm]

theorem lastNumber_iff_of_no_front (h : ∀ row, ¬KeyedNumber key (c :: rest) [] row) {d n : Nat} :
    LastNumber key (c :: rest) d n ↔ LastNumber key rest d n := by
  simp only [LastNumber, exists_keyedNumber_cons_iff, forall_keyedNumber_cons_iff, h]
  simp

theorem KeyedNumber.numbersFit_iff (h : KeyedNumber key (c :: rest) [] front) :
    NumbersFit key (c :: rest) ↔ ofDigits front < wordLimit ∧ NumbersFit key rest := by
  simp only [NumbersFit, forall_keyedNumber_cons_iff, h.front_iff]
  simp [forall_and]

theorem numbersFit_iff_of_no_front (h : ∀ row, ¬KeyedNumber key (c :: rest) [] row) :
    NumbersFit key (c :: rest) ↔ NumbersFit key rest := by
  simp only [NumbersFit, forall_keyedNumber_cons_iff, h]
  simp

/-- A number in front that does not fit is the first such number. -/
theorem KeyedNumber.firstBeyond_iff (h : KeyedNumber key (c :: rest) [] front) :
    FirstBeyond key (c :: rest) row ↔ wordLimit ≤ ofDigits front ∧ row = front ∨
      ofDigits front < wordLimit ∧ FirstBeyond key rest row := by
  simp only [FirstBeyond, exists_keyedNumber_cons_iff, forall_keyedNumber_cons_iff, h.front_iff]
  simp only [List.length_nil, List.length_cons, Nat.zero_le, implies_true, and_true,
    Nat.le_zero_eq, Nat.add_eq_zero_iff, one_ne_zero, and_false, imp_false, not_le,
    Nat.add_le_add_iff_right, forall_and, forall_eq]
  refine or_congr ⟨fun h => ⟨h.1 ▸ h.2, h.1⟩, fun h => ⟨h.2, h.2 ▸ h.1⟩⟩ ⟨?_, ?_⟩
  · rintro ⟨before, hrow, hbeyond, hfits, hfirst⟩
    exact ⟨hfits, before, hrow, hbeyond, hfirst⟩
  · rintro ⟨hfits, before, hrow, hbeyond, hfirst⟩
    exact ⟨before, hrow, hbeyond, hfits, hfirst⟩

theorem firstBeyond_iff_of_no_front (h : ∀ row, ¬KeyedNumber key (c :: rest) [] row) :
    FirstBeyond key (c :: rest) row ↔ FirstBeyond key rest row := by
  simp only [FirstBeyond, exists_keyedNumber_cons_iff, forall_keyedNumber_cons_iff, h]
  simp

end Cons

/-! ## The number that counts -/

/-- The number of a key is the last one, if all fit into a word. -/
theorem lastNumber_eq_ok_iff (hkey : IsKey key) {fallback n : UInt64} :
    lastNumber fallback (keyedRows key text) = .ok n ↔
      NumbersFit key text ∧ LastNumber key text fallback.toNat n.toNat := by
  induction text generalizing fallback with
  | nil =>
    simp [keyedRows, keyedRowsFrom, lastNumber, NumbersFit, LastNumber,
      not_keyedNumber_empty hkey, UInt64.toNat_inj, eq_comm]
  | cons c rest ih =>
    by_cases hfront : ∃ front, KeyedNumber key (c :: rest) [] front
    · obtain ⟨front, hfront⟩ := hfront
      have hne : front.isEmpty = false := by simpa using (keyedNumber_nil_iff.1 hfront).2.2
      rw [hfront.keyedRows_eq hkey, hfront.numbersFit_iff, hfront.lastNumber_iff, lastNumber,
        if_neg (by simp [hne])]
      split
      · next hfits => rw [ih, UInt64.toNat_ofNat_of_lt' hfits, and_assoc, and_iff_right hfits]
      · next hbeyond => simp [hbeyond]
    · have hnone : ∀ row, ¬KeyedNumber key (c :: rest) [] row := not_exists.1 hfront
      rw [lastNumber_of_no_front hkey hnone, numbersFit_iff_of_no_front hnone,
        lastNumber_iff_of_no_front hnone, ih]

/-- The first number that does not fit is reported. -/
theorem lastNumber_eq_error_iff (hkey : IsKey key) {fallback : UInt64} {e : PaginationError} :
    lastNumber fallback (keyedRows key text) = .error e ↔
      ∃ row, e = .invalidNumber (String.ofList row) ∧ FirstBeyond key text row := by
  induction text generalizing fallback with
  | nil => simp [keyedRows, keyedRowsFrom, lastNumber, FirstBeyond, not_keyedNumber_empty hkey]
  | cons c rest ih =>
    by_cases hfront : ∃ front, KeyedNumber key (c :: rest) [] front
    · obtain ⟨front, hfront⟩ := hfront
      have hne : front.isEmpty = false := by simpa using (keyedNumber_nil_iff.1 hfront).2.2
      simp only [hfront.keyedRows_eq hkey, hfront.firstBeyond_iff]
      rw [lastNumber, if_neg (by simp [hne])]
      split
      · next hfits => simp [ih, hfits, Nat.not_le.2 hfits]
      · next hbeyond => simp [hbeyond, Nat.le_of_not_lt hbeyond, eq_comm]
    · have hnone : ∀ row, ¬KeyedNumber key (c :: rest) [] row := not_exists.1 hfront
      simp only [lastNumber_of_no_front hkey hnone, firstBeyond_iff_of_no_front hnone, ih]

/-- What was read is the one number that is the last. -/
theorem lastNumber_iff_of_eq_ok (hkey : IsKey key) {fallback m : UInt64}
    (h : lastNumber fallback (keyedRows key text) = .ok m) {n : Nat} (hn : n < wordLimit) :
    LastNumber key text fallback.toNat n ↔ n = m.toNat := by
  have hfit : NumbersFit key text := ((lastNumber_eq_ok_iff hkey).1 h).1
  have hread : lastNumber fallback (keyedRows key text) = .ok (UInt64.ofNat n) ↔
      LastNumber key text fallback.toNat n := by
    rw [lastNumber_eq_ok_iff hkey, UInt64.toNat_ofNat_of_lt' hn, and_iff_right hfit]
  rw [← hread, h, Except.ok.injEq, ← UInt64.toNat_inj, UInt64.toNat_ofNat_of_lt' hn, eq_comm]

theorem exists_firstBeyond_iff (hkey : IsKey key) :
    (∃ row, FirstBeyond key text row) ↔ ¬NumbersFit key text := by
  constructor
  · rintro ⟨row, before, hrow, hbeyond, -⟩ hfit
    exact Nat.not_lt.2 hbeyond (hfit row before hrow)
  · intro hbeyond
    cases h : lastNumber 0 (keyedRows key text) with
    | ok n => exact absurd ((lastNumber_eq_ok_iff hkey).1 h).1 hbeyond
    | error e =>
      obtain ⟨row, -, hfirst⟩ := (lastNumber_eq_error_iff hkey).1 h
      exact ⟨row, hfirst⟩

theorem exists_lastNumber_eq_ok_iff (hkey : IsKey key) (fallback : UInt64) :
    (∃ n, lastNumber fallback (keyedRows key text) = .ok n) ↔ NumbersFit key text := by
  constructor
  · rintro ⟨n, h⟩
    exact ((lastNumber_eq_ok_iff hkey).1 h).1
  · intro hfit
    cases h : lastNumber fallback (keyedRows key text) with
    | ok n => exact ⟨n, rfl⟩
    | error e =>
      obtain ⟨row, -, hfirst⟩ := (lastNumber_eq_error_iff hkey).1 h
      exact absurd hfit ((exists_firstBeyond_iff hkey).1 ⟨row, hfirst⟩)

/-! ## The text of a pagination -/

theorem isDigit_of_mem_natDigits (n : Nat) : ∀ c ∈ natDigits n, isDigit c = true :=
  fun _ hc => isDigit_of_mem_toDigits hc

theorem mark_not_mem_natDigits (n : Nat) : '$' ∉ natDigits n :=
  not_mem_of_isDigit (isDigit_of_mem_natDigits n) (by decide)

/-- Behind a key stands a number, and behind the number a text without that key. -/
theorem keyedRows_natDigits (hkey : IsKey key) (n : Nat) {rest : List Char}
    (hrest : ∀ c ∈ rest.head?, isDigit c = false) (hnone : keyedRows key rest = []) :
    keyedRows key (key ++ (natDigits n ++ rest)) = [natDigits n] := by
  rw [keyedRows_key_append hkey, (takeWhile_append_eq (isDigit_of_mem_natDigits n) hrest).1,
    keyedRows_append hkey (mark_not_mem_natDigits n), hnone]

theorem keyedRows_pageKey_text (p : Pagination) :
    keyedRows pageKey p.text = [natDigits p.page] := by
  have hsize : keyedRows pageKey (sizeKey ++ (natDigits p.size ++ [])) = [] := by
    show keyedRows pageKey ('$' :: (['s', 'i', 'z', 'e', ':'] ++ (natDigits p.size ++ []))) = []
    rw [keyedRows_of_isPrefixOf_eq_false rfl, keyedRows_append isKey_pageKey (by decide),
      keyedRows_append isKey_pageKey (mark_not_mem_natDigits _)]
    rfl
  rw [List.append_nil] at hsize
  rw [text, List.append_assoc, List.append_assoc]
  exact keyedRows_natDigits isKey_pageKey p.page (by rintro c ⟨⟩; decide) hsize

theorem keyedRows_sizeKey_text (p : Pagination) :
    keyedRows sizeKey p.text = [natDigits p.size] := by
  have hsize : keyedRows sizeKey (sizeKey ++ (natDigits p.size ++ [])) = _ :=
    keyedRows_natDigits isKey_sizeKey p.size (by simp) rfl
  rw [List.append_nil] at hsize
  rw [text, List.append_assoc, List.append_assoc]
  show keyedRows sizeKey ('$' :: (['p', 'a', 'g', 'e', ':'] ++ _)) = _
  rw [keyedRows_of_isPrefixOf_eq_false rfl, keyedRows_append isKey_sizeKey (by decide),
    keyedRows_append isKey_sizeKey (mark_not_mem_natDigits _), hsize]

theorem lastNumber_natDigits {n : Nat} (h : n < wordLimit) (fallback : UInt64) :
    lastNumber fallback [natDigits n] = .ok (UInt64.ofNat n) := by
  have hne : (natDigits n).isEmpty = false := List.isEmpty_eq_false_iff.2 Nat.toDigits_ne_nil
  simp [lastNumber, hne, ofDigits_natDigits, h]

/-- A pagination is read back from its text. -/
theorem parse_text (p : Pagination) : parse p.text = .ok p := by
  have hpage : (UInt64.ofNat p.page).toNat = p.page := UInt64.toNat_ofNat_of_lt' p.page_lt
  have hsize : (UInt64.ofNat p.size).toNat = p.size := UInt64.toNat_ofNat_of_lt' p.size_lt
  rw [parse, keyedRows_pageKey_text, keyedRows_sizeKey_text, lastNumber_natDigits p.page_lt,
    lastNumber_natDigits p.size_lt]
  simp [make, hpage, hsize, p.page_pos.ne', p.size_pos.ne']

/-! ## Every text -/

theorem make_eq_ok_iff {page size : UInt64} {p : Pagination} :
    make page size = .ok p ↔ p.page = page.toNat ∧ p.size = size.toNat := by
  obtain ⟨n, m, hn, hm, hn', hm'⟩ := p
  unfold make
  split
  · next hzero => simp [hzero, hn.ne']
  split
  · next hzero => simp [hzero, hm.ne']
  · constructor
    · rintro ⟨⟩
      exact ⟨rfl, rfl⟩
    · rintro ⟨rfl, rfl⟩
      rfl

theorem make_eq_invalidPage_iff {page size : UInt64} {n : Nat} :
    make page size = .error (.invalidPage n) ↔ n = 0 ∧ 0 = page.toNat := by
  unfold make
  split_ifs with hpage hsize
  · simp [hpage, eq_comm]
  · simp [Ne.symm hpage]
  · simp [Ne.symm hpage]

theorem make_eq_invalidSize_iff {page size : UInt64} {n : Nat} :
    make page size = .error (.invalidSize n) ↔ n = 0 ∧ ¬0 = page.toNat ∧ 0 = size.toNat := by
  unfold make
  split_ifs with hpage hsize
  · simp [hpage]
  · simp [Ne.symm hpage, hsize, eq_comm]
  · simp [Ne.symm hsize]

theorem make_ne_invalidNumber {page size : UInt64} {digits : String} :
    make page size ≠ .error (.invalidNumber digits) := by
  unfold make
  split_ifs <;> simp

/-- If all numbers fit, the pagination is made of the last ones. -/
theorem parse_of_numbersFit {text : List Char} (hpage : NumbersFit pageKey text)
    (hsize : NumbersFit sizeKey text) : ∃ page size : UInt64, parse text = make page size ∧
      ∀ n < wordLimit, (LastNumber pageKey text defaultPage n ↔ n = page.toNat) ∧
        (LastNumber sizeKey text defaultSize n ↔ n = size.toNat) := by
  obtain ⟨page, hpage⟩ :=
    (exists_lastNumber_eq_ok_iff isKey_pageKey (UInt64.ofNat defaultPage)).2 hpage
  obtain ⟨size, hsize⟩ :=
    (exists_lastNumber_eq_ok_iff isKey_sizeKey (UInt64.ofNat defaultSize)).2 hsize
  refine ⟨page, size, by simp only [parse, hpage, hsize], fun n hn => ⟨?_, ?_⟩⟩
  · exact lastNumber_iff_of_eq_ok isKey_pageKey hpage hn
  · exact lastNumber_iff_of_eq_ok isKey_sizeKey hsize hn

/-- A number that does not fit is refused, one of a page before one of a size. -/
theorem parse_eq_invalidNumber_iff {text : List Char} {digits : String} :
    parse text = .error (.invalidNumber digits) ↔
      (∃ row, digits = String.ofList row ∧ FirstBeyond pageKey text row) ∨
      NumbersFit pageKey text ∧
        ∃ row, digits = String.ofList row ∧ FirstBeyond sizeKey text row := by
  have hsteps : parse text = .error (.invalidNumber digits) ↔
      lastNumber (UInt64.ofNat defaultPage) (keyedRows pageKey text) =
        .error (.invalidNumber digits) ∨
      (∃ page, lastNumber (UInt64.ofNat defaultPage) (keyedRows pageKey text) = .ok page) ∧
        lastNumber (UInt64.ofNat defaultSize) (keyedRows sizeKey text) =
          .error (.invalidNumber digits) := by
    unfold parse
    cases lastNumber (UInt64.ofNat defaultPage) (keyedRows pageKey text) with
    | error e => simp
    | ok page =>
      cases lastNumber (UInt64.ofNat defaultSize) (keyedRows sizeKey text) with
      | error e => simp
      | ok size => simp [make_ne_invalidNumber]
  rw [hsteps, exists_lastNumber_eq_ok_iff isKey_pageKey, lastNumber_eq_error_iff isKey_pageKey,
    lastNumber_eq_error_iff isKey_sizeKey]
  simp only [PaginationError.invalidNumber.injEq]

theorem exists_parse_eq_invalidNumber_iff {text : List Char} :
    (∃ digits, parse text = .error (.invalidNumber digits)) ↔
      ¬(NumbersFit pageKey text ∧ NumbersFit sizeKey text) := by
  have hrow (key : List Char) : (∃ digits row, digits = String.ofList row ∧
      FirstBeyond key text row) ↔ ∃ row, FirstBeyond key text row := by
    rw [exists_comm]
    simp
  simp only [parse_eq_invalidNumber_iff, exists_or, exists_and_left, hrow,
    exists_firstBeyond_iff isKey_pageKey, exists_firstBeyond_iff isKey_sizeKey]
  tauto

/-- A pagination has the last number of each key. -/
theorem parse_eq_ok_iff {text : List Char} {p : Pagination} :
    parse text = .ok p ↔ NumbersFit pageKey text ∧ NumbersFit sizeKey text ∧
      LastNumber pageKey text defaultPage p.page ∧
      LastNumber sizeKey text defaultSize p.size := by
  by_cases hfit : NumbersFit pageKey text ∧ NumbersFit sizeKey text
  · obtain ⟨page, size, hparse, hlast⟩ := parse_of_numbersFit hfit.1 hfit.2
    rw [hparse, make_eq_ok_iff, (hlast p.page p.page_lt).1, (hlast p.size p.size_lt).2]
    simp [hfit]
  · obtain ⟨digits, hparse⟩ := exists_parse_eq_invalidNumber_iff.2 hfit
    rw [hparse]
    exact iff_of_false (by simp) fun h => hfit ⟨h.1, h.2.1⟩

/-- **The last numbers count.** A pagination is read off every text by its keyed numbers alone. All
of them have to fit into a word, whether they count or not; then the last number of each key is the
page or the size, and a key without one has its default. A page of zero is refused first, then a
size of zero. The text of a pagination gives it back. -/
theorem parse_iff_lastNumbers (text : List Char) :
    (∀ p, parse text = .ok p ↔ NumbersFit pageKey text ∧ NumbersFit sizeKey text ∧
      LastNumber pageKey text defaultPage p.page ∧ LastNumber sizeKey text defaultSize p.size) ∧
    (∀ n, parse text = .error (.invalidPage n) ↔ n = 0 ∧
      NumbersFit pageKey text ∧ NumbersFit sizeKey text ∧
      LastNumber pageKey text defaultPage 0) ∧
    (∀ n, parse text = .error (.invalidSize n) ↔ n = 0 ∧
      NumbersFit pageKey text ∧ NumbersFit sizeKey text ∧
      ¬LastNumber pageKey text defaultPage 0 ∧ LastNumber sizeKey text defaultSize 0) ∧
    ((∃ digits, parse text = .error (.invalidNumber digits)) ↔
      ¬(NumbersFit pageKey text ∧ NumbersFit sizeKey text)) ∧
    (∀ digits, parse text = .error (.invalidNumber digits) ↔
      (∃ row, digits = String.ofList row ∧ FirstBeyond pageKey text row) ∨
      NumbersFit pageKey text ∧
        ∃ row, digits = String.ofList row ∧ FirstBeyond sizeKey text row) ∧
    ∀ p : Pagination, parse p.text = .ok p := by
  refine ⟨fun p => parse_eq_ok_iff, fun n => ?_, fun n => ?_, exists_parse_eq_invalidNumber_iff,
    fun _ => parse_eq_invalidNumber_iff, parse_text⟩
  all_goals
    by_cases hfit : NumbersFit pageKey text ∧ NumbersFit sizeKey text
    · obtain ⟨page, size, hparse, hlast⟩ := parse_of_numbersFit hfit.1 hfit.2
      obtain ⟨hpage, hsize⟩ := hlast 0 (by decide)
      simp only [hparse, make_eq_invalidPage_iff, make_eq_invalidSize_iff, hpage, hsize, hfit,
        true_and]
    · obtain ⟨digits, hparse⟩ := exists_parse_eq_invalidNumber_iff.2 hfit
      rw [hparse]
      exact iff_of_false (by simp) fun h => hfit ⟨h.2.1, h.2.2.1⟩

/-- Numbers that do not count, keys without a number, and a key in front of another one. -/
example : parse "$page:007$page:$size:3x$page:$page:12$size:40$size: 5".toList =
    .ok ⟨12, 40, by decide, by decide, by decide, by decide⟩ := by decide +kernel

end FilterQuery.Pagination
