/-
The category bloom filter on both sides of the wire: `compiler/bloom.py`
builds it, `mantis-policy` reads it.

`Control` is the Python builder, on unbounded integers masked to 64 bits;
`Node` is the Rust reader, on wrapping `u64`.  The two agree:

* `Node.toNat_fnv1a`, `Node.toNat_exactHash`, `Node.toNat_bitIndex` —
  hash for hash and position for position;
* `mightContain_iff_probes_set` — the reader on the builder's bytes answers
  exactly "all positions of the query were set by some added domain".
-/
import MantisDns.Bloom
import MantisDns.Bundle

open Text List

/-! ### The builder (`compiler/bloom.py`) -/

namespace Control

def fnvOffset : ℕ := 0xCBF29CE484222325
def fnvPrime : ℕ := 0x100000001B3
def mask64 : ℕ := 1 <<< 64 - 1

/-- `fnv1a`: xor, multiply, and only then mask. -/
def fnv1a (data : List UInt8) : ℕ :=
  data.foldl (fun h b => ((h ^^^ b.toNat) * fnvPrime) &&& mask64) fnvOffset

/-- `BloomParams`.  The seed is drawn by `random.getrandbits(64)`, so that
`to_bytes(8, "little")` never overflows. -/
structure BloomParams where
  numHashes : ℕ
  numBits : ℕ
  seed : ℕ
  seed_lt : seed < 2 ^ 64

/-- `seed.to_bytes(8, "little")`. -/
def seedBytes (seed : ℕ) : List UInt8 :=
  (List.range 8).map fun i => UInt8.ofNat (seed >>> (8 * i))

/-- `_hash_pair`. -/
def hashPair (domain : Str) (seed : ℕ) : ℕ × ℕ :=
  (fnv1a (seedBytes seed ++ utf8 domain), fnv1a (utf8 domain ++ seedBytes seed))

/-- `_bit_index`, with its masking at each step. -/
def bitIndex (h1 h2 i numBits : ℕ) : ℕ :=
  let step := (i * h2) &&& mask64
  let combined := (h1 + step) &&& mask64
  combined % numBits

/-- `exact_hash`: the `h1` half. -/
def exactHash (domain : Str) (seed : ℕ) : ℕ := (hashPair domain seed).1

/-- The bit position of `domain`'s `i`-th hash. -/
def BloomParams.probe (params : BloomParams) (domain : Str) (i : ℕ) : ℕ :=
  bitIndex (hashPair domain params.seed).1 (hashPair domain params.seed).2 i params.numBits

/-- `BloomFilterBuilder`. -/
structure BloomFilterBuilder where
  params : BloomParams
  bits : List UInt8

/-- `BloomFilterBuilder.__init__`. -/
def BloomFilterBuilder.new (params : BloomParams) : BloomFilterBuilder :=
  ⟨params, BitSet.zeros ((params.numBits + 7) / 8)⟩

/-- `BloomFilterBuilder.add`. -/
def BloomFilterBuilder.add (bf : BloomFilterBuilder) (domain : Str) : BloomFilterBuilder :=
  { bf with
    bits := (List.range bf.params.numHashes).foldl
      (fun bits i => BitSet.setBit bits (bf.params.probe domain i)) bf.bits }

/-- The loop `for domain in domains: bf.add(domain)`, then `to_bytes`. -/
def buildBytes (params : BloomParams) (domains : List Str) : List UInt8 :=
  (domains.foldl BloomFilterBuilder.add (.new params)).bits

/-- All positions of a domain. -/
def BloomParams.probes (params : BloomParams) (domain : Str) : List ℕ :=
  (List.range params.numHashes).map (params.probe domain)

theorem foldl_add_eq (domains : List Str) (bf : BloomFilterBuilder) :
    domains.foldl BloomFilterBuilder.add bf =
      ⟨bf.params, BitSet.setBits bf.bits (domains.flatMap bf.params.probes)⟩ := by
  induction domains generalizing bf with
  | nil => rfl
  | cons d domains ih =>
    rw [foldl_cons, ih, flatMap_cons, BitSet.setBits_append]
    show BloomFilterBuilder.mk bf.params _ = _
    rw [show BitSet.setBits bf.bits (bf.params.probes d) = (bf.add d).bits from ?_]
    · rfl
    · rw [BloomParams.probes, BitSet.setBits, foldl_map]
      rfl

theorem buildBytes_eq (params : BloomParams) (domains : List Str) :
    buildBytes params domains = Bloom.build params.probes ((params.numBits + 7) / 8) domains := by
  rw [buildBytes, foldl_add_eq]
  rfl

theorem bitIndex_lt {numBits : ℕ} (h : 0 < numBits) (h1 h2 i : ℕ) :
    bitIndex h1 h2 i numBits < numBits := Nat.mod_lt _ h

theorem probes_in_range (params : BloomParams) (h : 0 < params.numBits) (d : Str) :
    ∀ i ∈ params.probes d, i / 8 < (params.numBits + 7) / 8 := by
  intro i hi
  obtain ⟨k, -, rfl⟩ := List.mem_map.mp hi
  have hlt : params.probe d k < params.numBits := bitIndex_lt h _ _ _
  omega

end Control

/-! ### The reader (`mantis-policy`) -/

namespace Node

def fnvOffset : UInt64 := 0xcbf29ce484222325
def fnvPrime : UInt64 := 0x100000001b3

/-- `fnv1a`, with `wrapping_mul`. -/
def fnv1a (bytes : List UInt8) : UInt64 :=
  bytes.foldl (fun hash b => (hash ^^^ b.toUInt64) * fnvPrime) fnvOffset

/-- `u64::to_le_bytes`. -/
def toLeBytes (x : UInt64) : List UInt8 :=
  (List.range 8).map fun i => (x >>> UInt64.ofNat (8 * i)).toUInt8

/-- `exact_hash`. -/
def exactHash (domain : Str) (seed : UInt64) : UInt64 := fnv1a (toLeBytes seed ++ utf8 domain)

/-- `BloomFilter`, borrowing the category's bits. -/
structure BloomFilter where
  numHashes : UInt32
  numBits : UInt64
  seed : UInt64
  bits : List UInt8

/-- `BloomFilter::from_category`. -/
def BloomFilter.fromCategory (cat : Pb.CategorySet) : Option BloomFilter :=
  cat.bloom.map fun params => ⟨params.numHashes, params.numBits, params.seed, cat.bloomBits⟩

/-- `hash_pair`. -/
def BloomFilter.hashPair (bf : BloomFilter) (domain : Str) : UInt64 × UInt64 :=
  (exactHash domain bf.seed, fnv1a (utf8 domain ++ toLeBytes bf.seed))

/-- `h1.wrapping_add(i.wrapping_mul(h2)) % num_bits`. -/
def bitIndex (h1 h2 i numBits : UInt64) : UInt64 := (h1 + i * h2) % numBits

/-- `might_contain`: the loop over the hashes returns at the first position
that is clear or beyond the bytes. -/
def BloomFilter.mightContain (bf : BloomFilter) (domain : Str) : Bool :=
  if bf.numBits == 0 || bf.bits.isEmpty then false
  else
    let (h1, h2) := bf.hashPair domain
    (List.range bf.numHashes.toNat).all fun i =>
      BitSet.getBit bf.bits (bitIndex h1 h2 (UInt64.ofNat i) bf.numBits).toNat

/-! ### The two hash for hash -/

theorem mask64_and (n : ℕ) : n &&& Control.mask64 = n % 2 ^ 64 := by
  rw [show Control.mask64 = 2 ^ 64 - 1 from rfl, Nat.and_two_pow_sub_one_eq_mod]

theorem toNat_fnv1a (bytes : List UInt8) : (fnv1a bytes).toNat = Control.fnv1a bytes := by
  -- the accumulators agree after every byte, not only at the end
  suffices H : ∀ (h : UInt64),
      (bytes.foldl (fun hash b => (hash ^^^ b.toUInt64) * fnvPrime) h).toNat =
        bytes.foldl (fun h b => ((h ^^^ b.toNat) * Control.fnvPrime) &&& Control.mask64)
          h.toNat from
    H fnvOffset
  induction bytes with
  | nil => intro h; rfl
  | cons b bytes ih =>
    intro h
    rw [foldl_cons, foldl_cons, ih, mask64_and, UInt64.toNat_mul, UInt64.toNat_xor]
    rfl

theorem toLeBytes_eq (x : UInt64) : toLeBytes x = Control.seedBytes x.toNat := by
  refine map_congr_left fun i hi => ?_
  have hi8 : i < 8 := mem_range.mp hi
  refine UInt8.toNat_inj.mp ?_
  rw [UInt64.toNat_toUInt8, UInt8.toNat_ofNat', UInt64.toNat_shiftRight, UInt64.toNat_ofNat',
    Nat.mod_eq_of_lt (show 8 * i < 2 ^ 64 by omega), Nat.mod_eq_of_lt (show 8 * i < 64 by omega)]

theorem toNat_exactHash (domain : Str) (seed : UInt64) :
    (exactHash domain seed).toNat = Control.exactHash domain seed.toNat := by
  rw [exactHash, toNat_fnv1a, toLeBytes_eq, Control.exactHash, Control.hashPair]

theorem toNat_bitIndex (h1 h2 i numBits : UInt64) :
    (bitIndex h1 h2 i numBits).toNat =
      Control.bitIndex h1.toNat h2.toNat i.toNat numBits.toNat := by
  simp only [bitIndex, Control.bitIndex, mask64_and]
  rw [UInt64.toNat_mod, UInt64.toNat_add, UInt64.toNat_mul]

theorem toNat_bitIndex_hashPair (bf : BloomFilter) (domain : Str) (i : UInt64) :
    (bitIndex (bf.hashPair domain).1 (bf.hashPair domain).2 i bf.numBits).toNat =
      Control.bitIndex (Control.hashPair domain bf.seed.toNat).1
        (Control.hashPair domain bf.seed.toNat).2 i.toNat bf.numBits.toNat := by
  rw [toNat_bitIndex]
  simp only [BloomFilter.hashPair, toNat_exactHash, toNat_fnv1a, toLeBytes_eq, Control.exactHash,
    Control.hashPair]

end Node

/-! ### Reader on builder -/

namespace Control

/-- The parameters as they arrive at the node. -/
def BloomParams.ofWire (params : Pb.BloomParams) : BloomParams :=
  ⟨params.numHashes.toNat, params.numBits.toNat, params.seed.toNat, params.seed.toNat_lt⟩

end Control

namespace Node

/-- The reader over a set of parameters and some bytes. -/
def BloomFilter.ofWire (params : Pb.BloomParams) (bits : List UInt8) : BloomFilter :=
  ⟨params.numHashes, params.numBits, params.seed, bits⟩

theorem mightContain_eq_query {params : Pb.BloomParams} {bits : List UInt8}
    (hm : 0 < params.numBits) (hbits : bits ≠ []) (q : Str) :
    (BloomFilter.ofWire params bits).mightContain q =
      Bloom.query (Control.BloomParams.ofWire params).probes bits q := by
  have hgua : (params.numBits == 0 || bits.isEmpty) = false := by
    rw [Bool.or_eq_false_iff, beq_eq_false_iff_ne, isEmpty_eq_false_iff]
    exact ⟨ne_of_gt hm, hbits⟩
  rw [BloomFilter.mightContain, if_neg (by simpa [BloomFilter.ofWire] using hgua)]
  rw [Bloom.query, Control.BloomParams.probes, List.all_map, Bool.eq_iff_iff, List.all_eq_true,
    List.all_eq_true]
  refine forall₂_congr fun i hi => ?_
  -- the loop counter fits into the `u64` it is cast to
  have hi' : i < 2 ^ 64 := by
    have hlt : i < params.numHashes.toNat := mem_range.mp hi
    have hmax := params.numHashes.toNat_lt
    omega
  rw [Function.comp_apply, toNat_bitIndex_hashPair, UInt64.toNat_ofNat', Nat.mod_eq_of_lt hi']
  rfl

theorem mightContain_buildBytes {params : Pb.BloomParams} (hm : 0 < params.numBits)
    (domains : List Str) (q : Str) :
    (BloomFilter.ofWire params
        (Control.buildBytes (.ofWire params) domains)).mightContain q = true ↔
      Bloom.Reports (Control.BloomParams.ofWire params).probes {d | d ∈ domains} q := by
  have hm' : 0 < (Control.BloomParams.ofWire params).numBits := UInt64.lt_iff_toNat_lt.mp hm
  have hne : Control.buildBytes (.ofWire params) domains ≠ [] := by
    rw [Control.buildBytes_eq, ← length_pos_iff, Bloom.length_build]
    omega
  rw [mightContain_eq_query hm hne, Control.buildBytes_eq]
  exact Bloom.query_build (fun d _ => Control.probes_in_range _ hm' d) q

/-- **Builder and reader agree** for all parameters, all added domains and all
queries: the reader reports a query iff each of its positions was set by some
added domain; added domains are always reported; and the two sides compute
the same bit positions and the same exact hashes. -/
theorem mightContain_iff_probes_set (params : Pb.BloomParams) (hm : 0 < params.numBits)
    (domains : List Str) :
    let builder := Control.BloomParams.ofWire params
    let reader := BloomFilter.ofWire params (Control.buildBytes builder domains)
    (∀ q, reader.mightContain q = true ↔
      ∀ i < params.numHashes.toNat, ∃ d ∈ domains, ∃ j < params.numHashes.toNat,
        builder.probe d j = builder.probe q i) ∧
    (∀ d ∈ domains, reader.mightContain d = true) ∧
    (∀ (s : Str) (i : UInt64),
      (bitIndex (reader.hashPair s).1 (reader.hashPair s).2 i params.numBits).toNat =
        builder.probe s i.toNat) ∧
    ∀ s : Str, (exactHash s params.seed).toNat = Control.exactHash s params.seed.toNat := by
  refine ⟨fun q => ?_, fun d hd => ?_, fun s i => ?_, fun s => toNat_exactHash s params.seed⟩
  · -- no probe of the reader is at a bit that the builder did not set
    rw [mightContain_buildBytes hm]
    constructor
    · intro h i hi
      obtain ⟨d, hd, hp⟩ := h _ (List.mem_map_of_mem (mem_range.mpr hi))
      obtain ⟨j, hj, hij⟩ := List.mem_map.mp hp
      exact ⟨d, hd, j, mem_range.mp hj, hij⟩
    · intro h p hp
      obtain ⟨i, hi, rfl⟩ := List.mem_map.mp hp
      obtain ⟨d, hd, j, hj, hij⟩ := h i (mem_range.mp hi)
      exact ⟨d, hd, List.mem_map.mpr ⟨j, mem_range.mpr hj, hij⟩⟩
  · exact (mightContain_buildBytes hm domains d).mpr (Bloom.reports_of_mem _ hd)
  · exact toNat_bitIndex_hashPair _ s i

/-- A two-domain filter with three hashes over 1024 bits. -/
theorem mightContain_two_domains :
    (0 : UInt64) < (⟨3, 1024, 42⟩ : Pb.BloomParams).numBits ∧
    (BloomFilter.ofWire ⟨3, 1024, 42⟩ (Control.buildBytes (.ofWire ⟨3, 1024, 42⟩)
      ["ads.example", "bücher.example"])).mightContain
        "bücher.example" = true :=
  ⟨by decide, (mightContain_iff_probes_set ⟨3, 1024, 42⟩ (by decide)
    ["ads.example", "bücher.example"]).2.1 _ (by simp)⟩

end Node
