import Mathlib.Data.Nat.Digits.Lemmas

/-!
# Addresses as text

`std::net::IpAddr` and the bytes of its `to_string()`: four decimal numbers with dots, or eight
hexadecimal ones with colons, where the first of the longest runs of zeros is left out if it is longer
than one, and where an IPv4-mapped address ends in its IPv4 address.

An IPv6 text is read as the list of tokens between its colons (`tokens`); an empty token stands where
zeros are left out.
-/

namespace IpText

open List hiding Vector

abbrev Text := List UInt8

inductive IpAddr where
  | v4 (octets : Vector UInt8 4)
  | v6 (segments : Vector UInt16 8)
deriving DecidableEq

/-! ## Numbers -/

/-- The digit `d` of a base up to 16. -/
def digitByte (d : Nat) : UInt8 := UInt8.ofNat (if d < 10 then 48 + d else 87 + d)

/-- `n` in a base. -/
def numeral (base n : Nat) : Text :=
  if n = 0 then [digitByte 0] else (base.digits n).reverse.map digitByte

/-- The value of a digit. -/
def byteDigit (b : UInt8) : Nat := if b.toNat < 58 then b.toNat - 48 else b.toNat - 87

theorem byteDigit_digitByte {d : Nat} (h : d < 16) : byteDigit (digitByte d) = d := by
  unfold byteDigit digitByte
  split
  · rw [UInt8.toNat_ofNat_of_lt' (by simp only [UInt8.size]; omega)]
    split <;> omega
  · rw [UInt8.toNat_ofNat_of_lt' (by simp only [UInt8.size]; omega)]
    split <;> omega

variable {base m n : Nat} {segments chunk a b : List UInt16} {l : List Text} {octets : List UInt8}
  {sep : Text}

theorem ofDigits_numeral (hbase : 1 < base) (hle : base ≤ 16) (n : Nat) :
    Nat.ofDigits base ((numeral base n).reverse.map byteDigit) = n := by
  unfold numeral
  split
  · rename_i hzero
    rw [hzero]
    rfl
  · rw [← map_reverse, reverse_reverse, map_map,
      map_congr_left (g := id), map_id, Nat.ofDigits_digits]
    intro d hd
    exact byteDigit_digitByte ((Nat.digits_lt_base hbase hd).trans_le hle)

theorem numeral_injective (hbase : 1 < base) (hle : base ≤ 16) (h : numeral base m = numeral base n) :
    m = n := by
  rw [← ofDigits_numeral hbase hle m, h, ofDigits_numeral hbase hle n]

theorem numeral_ne_nil : numeral base n ≠ [] := by
  unfold numeral
  split
  · exact cons_ne_nil _ _
  · rename_i hne
    simpa [Nat.digits_eq_nil_iff_eq_zero] using hne

theorem mem_numeral {b : UInt8} (hbase : 1 < base) (h : b ∈ numeral base n) :
    ∃ d < base, b = digitByte d := by
  unfold numeral at h
  split at h
  · exact ⟨0, by omega, mem_singleton.1 h⟩
  · obtain ⟨d, hd, rfl⟩ := mem_map.1 h
    exact ⟨d, Nat.digits_lt_base hbase (mem_reverse.1 hd), rfl⟩

theorem digitByte_ne : ∀ d < 16, digitByte d ≠ 46 ∧ digitByte d ≠ 58 := by decide

theorem separator_notMem_numeral (hbase : 1 < base) (hle : base ≤ 16) :
    46 ∉ numeral base n ∧ 58 ∉ numeral base n := by
  constructor
  · grind [mem_numeral, digitByte_ne]
  · grind [mem_numeral, digitByte_ne]

/-! ## The text of an address -/

/-- Four numbers with dots between them. -/
def dotted (octets : List UInt8) : Text := [46].intercalate (octets.map fun o => numeral 10 o.toNat)

/-- `to_ipv4_mapped`, `::ffff:a.b.c.d`. -/
def toIpv4Mapped (segments : List UInt16) : Option (List UInt8) :=
  match segments with
  | [0, 0, 0, 0, 0, 0xffff, ab, cd] =>
    some [(ab >>> 8).toUInt8, ab.toUInt8, (cd >>> 8).toUInt8, cd.toUInt8]
  | _ => none

structure Span where
  start : Nat
  len : Nat
deriving DecidableEq

/-- The loop that looks for the longest run of zeros, from segment `i` on. -/
def longestZeros : List UInt16 → Nat → Span → Span → Span
  | [], _, longest, _ => longest
  | segment :: rest, i, longest, current =>
    if segment = 0 then
      let current := if current.len = 0 then ⟨i, 1⟩ else ⟨current.start, current.len + 1⟩
      longestZeros rest (i + 1) (if longest.len < current.len then current else longest) current
    else longestZeros rest (i + 1) longest ⟨0, 0⟩

def fmtSubslice (chunk : List UInt16) : Text := [58].intercalate (chunk.map fun s => numeral 16 s.toNat)

/-- `Ipv6Addr::fmt`. -/
def fmtV6 (segments : List UInt16) : Text :=
  match toIpv4Mapped segments with
  | some octets => [58, 58, 102, 102, 102, 102, 58] ++ dotted octets
  | none =>
    let zeroes := longestZeros segments 0 ⟨0, 0⟩ ⟨0, 0⟩
    if 1 < zeroes.len then
      fmtSubslice (segments.take zeroes.start) ++ [58, 58] ++
        fmtSubslice (segments.drop (zeroes.start + zeroes.len))
    else fmtSubslice segments

/-- `to_string().as_bytes()`. -/
def toText : IpAddr → Text
  | .v4 octets => dotted octets.toList
  | .v6 segments => fmtV6 segments.toList

/-! ## Dotted numbers -/

theorem dotted_tokens : ∀ l ∈ octets.map fun o => numeral 10 o.toNat, (46 : UInt8) ∉ l := by
  intro l hl
  obtain ⟨o, -, rfl⟩ := mem_map.1 hl
  exact (separator_notMem_numeral (by decide) (by decide)).1

theorem dotted_injective {a b : List UInt8} (ha : a ≠ []) (hb : b ≠ []) (h : dotted a = dotted b) :
    a = b := by
  have hsplit := congrArg (splitOn 46) h
  rw [dotted, dotted, splitOn_intercalate _ dotted_tokens (by simpa using ha),
    splitOn_intercalate _ dotted_tokens (by simpa using hb)] at hsplit
  apply map_injective_iff.2 _ hsplit
  intro x y hxy
  exact UInt8.toNat_inj.1 (numeral_injective (by decide) (by decide) hxy)

/-! ## Runs of zeros -/

/-- The segments of the span are zeros. -/
def Zeros (segments : List UInt16) (span : Span) : Prop :=
  ∀ k, span.start ≤ k → k < span.start + span.len → segments[k]? = some 0

theorem zeros_longestZeros (pre rest : List UInt16) (longest current : Span)
    (hlongest : Zeros (pre ++ rest) longest) (hcurrent : Zeros (pre ++ rest) current)
    (hend : current.len ≠ 0 → current.start + current.len = pre.length) :
    Zeros (pre ++ rest) (longestZeros rest pre.length longest current) := by
  induction rest generalizing pre longest current with
  | nil => exact hlongest
  | cons segment rest ih =>
    have hassoc : pre ++ segment :: rest = (pre ++ [segment]) ++ rest := by simp
    have hlen : (pre ++ [segment]).length = pre.length + 1 := by simp
    rw [longestZeros, hassoc, ← hlen]
    rw [hassoc] at hlongest hcurrent
    split
    · rename_i hzero
      have hhere : ((pre ++ [segment]) ++ rest)[pre.length]? = some 0 := by simp [hzero]
      -- the run that ends here, begun or made longer
      have hrun : ∀ span : Span, span = (if current.len = 0 then ⟨pre.length, 1⟩ else
          ⟨current.start, current.len + 1⟩) →
          Zeros ((pre ++ [segment]) ++ rest) span ∧ span.start + span.len = pre.length + 1 := by
        intro span hspan
        split at hspan
        · subst hspan
          refine ⟨fun k hlow hhigh => ?_, rfl⟩
          have hk : k = pre.length := by
            simp only at hlow hhigh
            omega
          rw [hk, hhere]
        · rename_i hopen
          have hend' := hend hopen
          subst hspan
          refine ⟨fun k hlow hhigh => ?_, by simp only; omega⟩
          simp only at hlow hhigh
          by_cases hk : k = pre.length
          · rw [hk, hhere]
          · exact hcurrent k hlow (by omega)
      grind
    · apply ih
      · exact hlongest
      · intro k hlow hhigh
        simp only at hlow hhigh
        omega
      · intro hne
        exact absurd rfl hne

theorem eq_take_append_zeros {span : Span} (h : Zeros segments span) :
    segments = segments.take span.start ++ replicate span.len 0 ++
      segments.drop (span.start + span.len) := by
  have hmiddle : (segments.drop span.start).take span.len = replicate span.len 0 := by
    apply ext_getElem?
    intro k
    by_cases hk : k < span.len
    · rw [List.getElem?_take_of_lt hk, List.getElem?_drop, h _ (by omega) (by omega),
        List.getElem?_replicate_of_lt hk]
    · rw [List.getElem?_eq_none (by simp; omega), List.getElem?_eq_none (by simp; omega)]
  rw [← hmiddle, append_assoc, ← drop_drop, take_append_drop, take_append_drop]

/-! ## Tokens -/

/-- The tokens of a part of an address, where an empty one stands for no segments at all. -/
def edge (chunk : List UInt16) : List Text :=
  match chunk with
  | [] => [[]]
  | s :: rest => (s :: rest).map fun s => numeral 16 s.toNat

theorem hex_injective : Function.Injective fun s : UInt16 => numeral 16 s.toNat := by
  intro x y hxy
  exact UInt16.toNat_inj.1 (numeral_injective (by decide) (by decide) hxy)

theorem nil_notMem_hex (chunk : List UInt16) : [] ∉ chunk.map fun s => numeral 16 s.toNat := by
  intro h
  obtain ⟨s, -, hs⟩ := mem_map.1 h
  exact numeral_ne_nil hs

theorem edge_ne_nil (chunk : List UInt16) : edge chunk ≠ [] := by
  cases chunk with
  | nil | cons => exact cons_ne_nil _ _

theorem intercalate_edge (chunk : List UInt16) : [58].intercalate (edge chunk) = fmtSubslice chunk := by
  cases chunk with
  | nil | cons => rfl

theorem intercalate_append {xs ys : List Text} (hx : xs ≠ []) (hy : ys ≠ []) :
    sep.intercalate (xs ++ ys) = sep.intercalate xs ++ sep ++ sep.intercalate ys := by
  induction xs with
  | nil => exact absurd rfl hx
  | cons _ xs =>
    cases xs with
    | nil =>
      obtain ⟨y, ys, rfl⟩ := exists_cons_of_ne_nil hy
      simp [intercalate_cons_cons]
    | cons => simp_all

/-- The tokens between the colons. -/
def tokensV6 (segments : List UInt16) : List Text :=
  match toIpv4Mapped segments with
  | some octets => [[], [], [102, 102, 102, 102], dotted octets]
  | none =>
    let zeroes := longestZeros segments 0 ⟨0, 0⟩ ⟨0, 0⟩
    if 1 < zeroes.len then
      edge (segments.take zeroes.start) ++ [] :: edge (segments.drop (zeroes.start + zeroes.len))
    else segments.map fun s => numeral 16 s.toNat

def tokens : IpAddr → List Text
  | .v4 octets => [dotted octets.toList]
  | .v6 segments => tokensV6 segments.toList

theorem intercalate_tokensV6 (segments : List UInt16) :
    [58].intercalate (tokensV6 segments) = fmtV6 segments := by
  unfold tokensV6 fmtV6
  split
  · simp [intercalate_cons_cons]
  · dsimp only
    split
    · rw [show ∀ l : List Text, ([] : Text) :: l = [[]] ++ l from fun _ => rfl,
        intercalate_append (edge_ne_nil _) (by simp),
        intercalate_append (by simp) (edge_ne_nil _), intercalate_edge, intercalate_edge]
      simp
    · rfl

theorem intercalate_tokens (a : IpAddr) : [58].intercalate (tokens a) = toText a := by
  cases a with
  | v4 => simp [tokens, toText]
  | v6 => exact intercalate_tokensV6 _

theorem notMem_intercalate {b : UInt8} {xs : List Text} (hsep : b ∉ sep)
    (h : ∀ l ∈ xs, b ∉ l) : b ∉ sep.intercalate xs := by
  induction xs with
  | nil => simp
  | cons _ xs =>
    obtain ⟨hx, hxs⟩ := forall_mem_cons.1 h
    cases xs with
    | nil => simpa using hx
    | cons => simp_all

theorem colon_notMem_dotted (octets : List UInt8) : 58 ∉ dotted octets := by
  apply notMem_intercalate (by decide)
  intro l hl
  obtain ⟨o, -, rfl⟩ := mem_map.1 hl
  exact (separator_notMem_numeral (by decide) (by decide)).2

theorem dot_mem_dotted (o o' : UInt8) (octets : List UInt8) : 46 ∈ dotted (o :: o' :: octets) := by
  rw [dotted, map_cons, map_cons, intercalate_cons_cons]
  simp

theorem separator_notMem_hex {l : Text}
    (h : l ∈ chunk.map fun s => numeral 16 s.toNat) : 46 ∉ l ∧ 58 ∉ l := by
  obtain ⟨s, -, rfl⟩ := mem_map.1 h
  exact separator_notMem_numeral (by decide) (by decide)

theorem separator_notMem_edge {l : Text} (h : l ∈ edge chunk) : 46 ∉ l ∧ 58 ∉ l := by
  cases chunk with
  | nil =>
    rw [mem_singleton.1 h]
    exact ⟨not_mem_nil, not_mem_nil⟩
  | cons => exact separator_notMem_hex h

/-- The three forms of an IPv6 text. -/
inductive FormV6 (segments : List UInt16) : List Text → Prop
  | mapped (ab cd : UInt16) (h : segments = [0, 0, 0, 0, 0, 0xffff, ab, cd]) :
    FormV6 segments [[], [], [102, 102, 102, 102],
      dotted [(ab >>> 8).toUInt8, ab.toUInt8, (cd >>> 8).toUInt8, cd.toUInt8]]
  | shortened (pre post : List UInt16) (k : Nat)
    (h : segments = pre ++ replicate k 0 ++ post) :
    FormV6 segments (edge pre ++ [] :: edge post)
  | full : FormV6 segments (segments.map fun s => numeral 16 s.toNat)

theorem toIpv4Mapped_some (h : toIpv4Mapped segments = some octets) :
    ∃ ab cd, segments = [0, 0, 0, 0, 0, 0xffff, ab, cd] ∧
      octets = [(ab >>> 8).toUInt8, ab.toUInt8, (cd >>> 8).toUInt8, cd.toUInt8] := by
  unfold toIpv4Mapped at h
  split at h
  · rename_i ab cd
    cases h
    exact ⟨ab, cd, rfl, rfl⟩
  · cases h

theorem formV6 (segments : List UInt16) : FormV6 segments (tokensV6 segments) := by
  unfold tokensV6
  split
  · rename_i h
    obtain ⟨ab, cd, hsegments, rfl⟩ := toIpv4Mapped_some h
    exact .mapped ab cd hsegments
  · dsimp only
    split
    · have hzeros := zeros_longestZeros [] segments ⟨0, 0⟩ ⟨0, 0⟩ (fun k _ hk => by simp at hk)
        (fun k _ hk => by simp at hk) (fun hne => absurd rfl hne)
      exact .shortened _ _ _ (eq_take_append_zeros hzeros)
    · exact .full

section

variable (h : FormV6 segments l)
include h

theorem FormV6.tokens_ne_nil (hlen : segments.length = 8) : l ≠ [] := by
  cases h with
  | mapped | shortened => simp
  | full =>
    intro hnil
    rw [map_eq_nil_iff.1 hnil] at hlen
    cases hlen

theorem FormV6.colon_notMem : ∀ t ∈ l, (58 : UInt8) ∉ t := by
  intro t ht
  cases h with
  | mapped _ _ _ =>
    simp only [mem_cons, not_mem_nil, or_false] at ht
    rcases ht with rfl | rfl | rfl | rfl
    · decide
    · decide
    · decide
    · exact colon_notMem_dotted _
  | shortened =>
    rcases mem_append.1 ht with ht | ht
    · exact (separator_notMem_edge ht).2
    · rcases mem_cons.1 ht with rfl | ht
      · exact not_mem_nil
      · exact (separator_notMem_edge ht).2
  | full => exact (separator_notMem_hex ht).2

theorem FormV6.dot_iff :
    (∃ t ∈ l, (46 : UInt8) ∈ t) ↔ ∃ ab cd : UInt16, l = [[], [], [102, 102, 102, 102],
      dotted [(ab >>> 8).toUInt8, ab.toUInt8, (cd >>> 8).toUInt8, cd.toUInt8]] ∧
        segments = [0, 0, 0, 0, 0, 0xffff, ab, cd] := by
  constructor
  · rintro ⟨t, ht, hdot⟩
    cases h with
    | mapped ab cd hsegments => exact ⟨ab, cd, rfl, hsegments⟩
    | shortened => grind [separator_notMem_edge]
    | full => exact absurd hdot (separator_notMem_hex ht).1
  · rintro ⟨ab, cd, rfl, -⟩
    refine ⟨dotted _, ?_, dot_mem_dotted (ab >>> 8).toUInt8 ab.toUInt8 [(cd >>> 8).toUInt8, cd.toUInt8]⟩
    exact mem_cons_of_mem _ (mem_cons_of_mem _ (mem_cons_of_mem _ mem_cons_self))

/-- A text without a dot has an empty token where zeros are left out, and none otherwise. -/
theorem FormV6.of_no_dot (hdot : ¬∃ t ∈ l, (46 : UInt8) ∈ t) :
    (∃ pre post k, segments = pre ++ replicate k 0 ++ post ∧
      l = edge pre ++ [] :: edge post) ∨ l = segments.map fun s => numeral 16 s.toNat := by
  cases h with
  | mapped ab cd hsegments =>
    exact absurd ((FormV6.mapped ab cd hsegments).dot_iff.2 ⟨ab, cd, rfl, hsegments⟩) hdot
  | shortened pre post k hsegments => exact .inl ⟨pre, post, k, hsegments, rfl⟩
  | full => exact .inr rfl

end

theorem append_nil_inj {l l' r r' : List Text} (hl : [] ∉ l) (hl' : [] ∉ l')
    (h : l ++ [] :: r = l' ++ [] :: r') : l = l' ∧ r = r' := by
  induction l generalizing l' with
  | nil =>
    cases l' with
    | nil => exact ⟨rfl, (cons.inj h).2⟩
    | cons => exact absurd mem_cons_self ((cons.inj h).1 ▸ hl')
  | cons =>
    cases l' with
    | nil => exact absurd mem_cons_self ((cons.inj h).1.symm ▸ hl)
    | cons => grind

theorem edge_injective (h : edge a = edge b) : a = b := by
  cases a with
  | nil =>
    cases b with
    | nil => rfl
    | cons => exact absurd (cons.inj h).1.symm numeral_ne_nil
  | cons =>
    cases b with
    | nil => exact absurd (cons.inj h).1 numeral_ne_nil
    | cons => exact map_injective_iff.2 hex_injective h

/-- The two parts around the zeros can be read off. -/
theorem shortened_inj {pre post pre' post' : List UInt16}
    (h : edge pre ++ [] :: edge post = edge pre' ++ [] :: edge post') :
    pre = pre' ∧ post = post' := by
  cases pre with
  | nil =>
    cases pre' with
    | nil => exact ⟨rfl, edge_injective (cons.inj (cons.inj h).2).2⟩
    | cons => exact absurd (cons.inj h).1.symm numeral_ne_nil
  | cons s rest =>
    cases pre' with
    | nil => exact absurd (cons.inj h).1 numeral_ne_nil
    | cons s' rest' =>
      obtain ⟨hpre, hpost⟩ := append_nil_inj (nil_notMem_hex (s :: rest))
        (nil_notMem_hex (s' :: rest')) h
      exact ⟨map_injective_iff.2 hex_injective hpre, edge_injective hpost⟩

theorem bytes_of_segment {a b : UInt16} (hhigh : (a >>> 8).toUInt8 = (b >>> 8).toUInt8)
    (hlow : a.toUInt8 = b.toUInt8) : a = b := by
  apply UInt16.toNat_inj.1
  grind [UInt16.toNat_toUInt8, UInt16.toNat_shiftRight, Nat.shiftRight_eq_div_pow, UInt8.toNat, a.toNat_lt, b.toNat_lt]

theorem FormV6.inj (ha : FormV6 a l) (hb : FormV6 b l)
    (hlena : a.length = 8) (hlenb : b.length = 8) : a = b := by
  by_cases hdot : ∃ t ∈ l, (46 : UInt8) ∈ t
  · obtain ⟨ab, cd, rfl, rfl⟩ := ha.dot_iff.1 hdot
    obtain ⟨ab', cd', heq, rfl⟩ := hb.dot_iff.1 hdot
    simp only [cons.injEq, and_true, true_and] at heq
    have hoctets := dotted_injective (by simp) (by simp) heq
    simp only [cons.injEq, and_true] at hoctets
    obtain ⟨h1, h2, h3, h4⟩ := hoctets
    rw [bytes_of_segment h1 h2, bytes_of_segment h3 h4]
  · rcases ha.of_no_dot hdot with ⟨pre, post, k, hsega, hl⟩ | hl <;>
      rcases hb.of_no_dot hdot with ⟨pre', post', k', hsegb, hl'⟩ | hl'
    · grind [length_append, length_replicate, shortened_inj]
    · exact absurd (hl'.symm.trans hl ▸ by simp) (nil_notMem_hex b)
    · exact absurd (hl.symm.trans hl' ▸ by simp) (nil_notMem_hex a)
    · exact map_injective_iff.2 hex_injective (hl.symm.trans hl')

theorem toList_ne_nil (octets : Vector UInt8 4) : octets.toList ≠ [] :=
  ne_nil_of_length_pos (by rw [octets.length_toList]; decide)

theorem v4_ne_v6 (octets : Vector UInt8 4) (segments : Vector UInt16 8) :
    tokens (.v4 octets) ≠ tokens (.v6 segments) := by
  intro h
  have hdot : 46 ∈ dotted octets.toList := by
    obtain ⟨o, o', rest, hlist⟩ : ∃ o o' rest, octets.toList = o :: o' :: rest := by
      have hlen := octets.length_toList
      match hlist : octets.toList with
      | [] => rw [hlist] at hlen; cases hlen
      | [_] => rw [hlist] at hlen; cases hlen
      | o :: o' :: rest => exact ⟨o, o', rest, rfl⟩
    rw [hlist]
    exact dot_mem_dotted o o' rest
  have hform := formV6 segments.toList
  change [dotted octets.toList] = tokensV6 segments.toList at h
  rw [← h] at hform
  obtain ⟨ab, cd, hl, -⟩ := hform.dot_iff.1 ⟨_, mem_singleton_self _, hdot⟩
  cases (cons.inj hl).2

/-- **Different addresses have different texts.** -/
theorem toText_injective {a b : IpAddr} (h : toText a = toText b) : a = b := by
  have hne : ∀ a, tokens a ≠ [] := by
    intro a
    cases a with
    | v4 => exact cons_ne_nil _ _
    | v6 segments => exact (formV6 _).tokens_ne_nil segments.length_toList
  have hcolon : ∀ a, ∀ t ∈ tokens a, (58 : UInt8) ∉ t := by
    intro a
    cases a with
    | v4 =>
      intro t ht
      rw [mem_singleton.1 ht]
      exact colon_notMem_dotted _
    | v6 => exact (formV6 _).colon_notMem
  have htokens := congrArg (splitOn 58) h
  rw [← intercalate_tokens, ← intercalate_tokens, splitOn_intercalate _ (hcolon a) (hne a),
    splitOn_intercalate _ (hcolon b) (hne b)] at htokens
  cases a with
  | v4 octets =>
    cases b with
    | v4 octets' =>
      have hoctets := dotted_injective (toList_ne_nil octets) (toList_ne_nil octets')
        (cons.inj htokens).1
      rw [Vector.toList_inj.1 hoctets]
    | v6 segments => exact absurd htokens (v4_ne_v6 octets segments)
  | v6 segments =>
    cases b with
    | v4 octets => exact absurd htokens.symm (v4_ne_v6 octets segments)
    | v6 segments' =>
      have hform := formV6 segments'.toList
      change tokensV6 _ = tokensV6 _ at htokens
      rw [← htokens] at hform
      have hsegments := (formV6 segments.toList).inj hform segments.length_toList
        segments'.length_toList
      rw [Vector.toList_inj.1 hsegments]

end IpText
