import BekOS.Library.HashtableInserts
import BekOS.Peripherals.FlattenedBlob

/-!
# Reading the properties of a node

The loop of `parse_node` over the properties keeps each of them, and of those called `compatible`
and `phandle` what it needs.  It goes on up to the first token that is not a property, and that is
a property's own `NOP` as well.
-/

namespace BekOS.DeviceTree

/-! ## Properties -/

theorem stringsOf_append {string : List Byte} (hstring : 0 ∉ string) (rest : List Byte) :
    stringsOf (string ++ 0 :: rest) = string :: stringsOf rest := by
  induction string with
  | nil => rfl
  | cons byte string ih =>
      have hbyte : byte ≠ 0 := fun h => hstring (h ▸ List.mem_cons_self)
      have hih := ih fun h => hstring (List.mem_cons_of_mem _ h)
      unfold stringsOf at hih ⊢
      rw [List.cons_append, List.foldr_cons, if_neg hbyte, hih]

/-- A list of strings is read as it is written. -/
theorem readStringlistLoop_flatMap {list : List (List Byte)} (hlist : ∀ s ∈ list, 0 ∉ s)
    {fuel : ℕ} (hfuel : (list.flatMap (· ++ [0])).length ≤ fuel) (rest : List Byte) :
    readStringlistLoop fuel (list.flatMap (· ++ [0]) ++ rest)
        (list.flatMap (· ++ [0])).length = .ok list ∧
      stringsOf (list.flatMap (· ++ [0])) = list := by
  induction list generalizing fuel with
  | nil =>
      refine ⟨?_, rfl⟩
      cases fuel with
      | zero => rfl
      | succ fuel => exact if_pos rfl
  | cons string list ih =>
      have hstring := hlist string List.mem_cons_self
      have hcons : (string :: list).flatMap (· ++ [0]) =
          string ++ 0 :: list.flatMap (· ++ [0]) := by
        simp
      rw [hcons] at hfuel ⊢
      simp only [List.length_append, List.length_cons] at hfuel ⊢
      obtain ⟨fuel, rfl⟩ := Nat.exists_eq_succ_of_ne_zero (by omega : fuel ≠ 0)
      obtain ⟨hread, hstrings⟩ := ih (fun s hs => hlist s (List.mem_cons_of_mem _ hs))
        (by omega : _ ≤ fuel)
      refine ⟨?_, by rw [stringsOf_append hstring, hstrings]⟩
      have hne : string.length + ((list.flatMap (· ++ [0])).length + 1) ≠ 0 := by omega
      have hsize : string.length + ((list.flatMap (· ++ [0])).length + 1) - (string.length + 1) =
          (list.flatMap (· ++ [0])).length := by
        omega
      have hdrop : (string ++ 0 :: (list.flatMap (· ++ [0]) ++ rest)).drop (string.length + 1) =
          list.flatMap (· ++ [0]) ++ rest := by
        rw [← List.drop_drop, List.drop_left]
        rfl
      rw [List.append_assoc, List.cons_append, readStringlistLoop, if_neg hne,
        strlen_append hstring]
      change (do
        let rest ← readStringlistLoop fuel ((string ++ 0 :: (_ ++ rest)).drop (string.length + 1)) _
        return (string ++ 0 :: _).take string.length :: rest) = _
      rw [hdrop, hsize, hread, List.take_left]
      rfl

namespace Attributes

theorem extend_nil (attributes : Attributes) : attributes.extend [] = attributes := by
  cases attributes
  simp [extend, lastOf]

theorem lastOf_cons (name : List Byte) (p : Property) (properties : List Property) :
    lastOf name (p :: properties) =
      (lastOf name properties).or (if p.name = name then some p else none) := by
  by_cases hname : p.name = name
  · rw [lastOf, List.filter_cons_of_pos (by simpa using hname), List.getLast?_cons, if_pos hname,
      ← lastOf]
    cases lastOf name properties <;> rfl
  · rw [lastOf, List.filter_cons_of_neg (by simpa using hname), if_neg hname, Option.or_none]
    rfl

theorem extend_cons (attributes : Attributes) (p : Property) (properties : List Property) :
    attributes.extend (p :: properties) = (attributes.extend [p]).extend properties := by
  have hmap : ∀ {α : Type} (f : Property → α) (name : List Byte) (a : α),
      ((lastOf name (p :: properties)).map f).getD a =
        ((lastOf name properties).map f).getD (((lastOf name [p]).map f).getD a) := by
    intro α f name a
    rw [lastOf_cons name p properties, lastOf_cons name p []]
    cases lastOf name properties <;> rfl
  rw [extend, extend, extend, hmap, hmap]
  simp

end Attributes

theorem compatibleTag_ne_phandleTag : compatibleTag ≠ phandleTag := by
  decide

/-- The table has these phandles. -/
def PhandleMap (hash : ℕ → ℕ) (table : Hashtable ℕ ℕ) (entries : List (ℕ × ℕ)) : Prop :=
  table.Unextracted hash fun key => entries.lookup key

variable {hash : ℕ → ℕ} {strings : List Byte} {table : Hashtable ℕ ℕ} {entries : List (ℕ × ℕ)}

theorem hashRespects : Hashtable.HashRespects hash :=
  fun _ _ h => by rw [beq_iff_eq.mp h]

theorem lookup_eq_none {key : ℕ} (h : key ∉ entries.map Prod.fst) : entries.lookup key = none := by
  rw [List.lookup_eq_none_iff]
  intro entry hentry
  have hne : key ≠ entry.1 := fun heq => h (heq ▸ List.mem_map_of_mem hentry)
  simpa using hne

theorem PhandleMap.insert (h : PhandleMap hash table entries) {key : ℕ}
    (hkey : key ∉ entries.map Prod.fst) (address : ℕ) :
    ∃ stored, table.insert hash (key, address) = some stored ∧
      PhandleMap hash stored.1 (entries ++ [(key, address)]) := by
  obtain ⟨stored, hstored, hmap⟩ := Hashtable.Unextracted.insert h hashRespects
    (lookup_eq_none hkey) address
  refine ⟨stored, hstored, ?_⟩
  have hsame : (fun other => (entries ++ [(key, address)]).lookup other) =
      Hashtable.RefMap.update (fun other => entries.lookup other) key (some address) := by
    funext other
    rw [List.lookup_append, Hashtable.RefMap.update]
    by_cases hother : other = key
    · rw [hother, lookup_eq_none hkey]
      simp
    · have hbeq : (other == key) = false := beq_false_of_ne hother
      simp [List.lookup_cons, hbeq]
  rw [PhandleMap, hsame]
  exact hmap

/-- What is kept of a property. -/
theorem specialCases_eq {p : BlobProperty} (hp : p.Proper strings)
    (hmap : PhandleMap hash table entries) (address : ℕ)
    (hnew : ((entries ++ phandleEntries address [p.property]).map Prod.fst).Nodup)
    (attributes : Attributes) (rest : List Byte) :
    ∃ table', specialCases hash address p.property (p.property.data ++ rest)
        { attributes with properties := attributes.properties ++ [p.property] } table =
          .ok (attributes.extend [p.property], table') ∧
      PhandleMap hash table' (entries ++ phandleEntries address [p.property]) := by
  by_cases hcompatible : p.property.name = compatibleTag
  · obtain ⟨list, hdata, hlist⟩ := hp.terminated hcompatible
    obtain ⟨hread, hstrings⟩ := readStringlistLoop_flatMap hlist le_rfl rest
    have hne : p.property.name ≠ phandleTag := hcompatible ▸ compatibleTag_ne_phandleTag
    have hentries : phandleEntries address [p.property] = [] := by
      simp [phandleEntries, hne]
    refine ⟨table, ?_, by rw [hentries, List.append_nil]; exact hmap⟩
    have hextend : attributes.extend [p.property] =
        { attributes with
          properties := attributes.properties ++ [p.property], compatible := list } := by
      have hstringsOf : stringsOf p.property.data = list := by rw [hdata, hstrings]
      simp [Attributes.extend, lastOf, hcompatible, compatibleTag_ne_phandleTag, hstringsOf]
    rw [specialCases, if_pos hcompatible, readStringlist, hextend]
    rw [← hdata] at hread
    rw [hread]
    rfl
  · by_cases hphandle : p.property.name = phandleTag
    · have hlen := hp.phandle hphandle
      have hentries : phandleEntries address [p.property] =
          [(beNat p.property.data, address)] := by
        simp [phandleEntries, hphandle]
      have hget : getAtBe p.property.data 0 4 = .ok (beNat p.property.data) := by
        rw [getAtBe, if_pos (by omega), List.drop_zero, List.take_of_length_le (by omega)]
      rw [hentries, List.map_append, List.nodup_append] at hnew
      obtain ⟨stored, hstored, hmap'⟩ := hmap.insert
        (fun hkey => hnew.2.2 _ hkey _ List.mem_cons_self rfl) address
      refine ⟨stored.1, ?_, hentries ▸ hmap'⟩
      have hextend : attributes.extend [p.property] =
          { attributes with
            properties := attributes.properties ++ [p.property]
            phandle := beNat p.property.data } := by
        simp [Attributes.extend, lastOf, hphandle, compatibleTag_ne_phandleTag.symm]
      rw [specialCases, if_neg hcompatible, if_pos hphandle, hget, hextend, ok_bind,
        hstored]
      rfl
    · have hentries : phandleEntries address [p.property] = [] := by
        simp [phandleEntries, hphandle]
      refine ⟨table, ?_, by rw [hentries, List.append_nil]; exact hmap⟩
      rw [specialCases, if_neg hcompatible, if_neg hphandle]
      simp [Attributes.extend, lastOf, hphandle, hcompatible]

theorem length_encode_property (p : BlobProperty) :
    p.encode.length = 4 * p.nops + (12 + p.property.data.length +
      (padding p.property.data.length).length) := by
  simp only [BlobProperty.encode, List.length_append, length_nopTokens, length_beBytes]
  omega

theorem length_padding (count : ℕ) : (count + (padding count).length) % 4 = 0 := by
  rw [padding, List.length_replicate]
  omega

theorem parseProperties_succ {tag address fuel : ℕ} {attributes : Attributes} {cursor : Cursor}
    (hpeek : cursor.peekTag = .ok tag) (hne : tag ≠ beginProp) :
    parseProperties hash strings address (fuel + 1) attributes cursor table =
      .ok (attributes, cursor, table) := by
  rw [parseProperties, hpeek, ok_bind, if_neg hne]
  rfl

/-- One property that is not behind a `NOP`. -/
theorem parseProperties_cons {p : BlobProperty} {size : ℕ} (hp : p.Proper (strings.take size))
    (hnops : p.nops = 0) (hmap : PhandleMap hash table entries) (address fuel : ℕ)
    (hnew : ((entries ++ phandleEntries address [p.property]).map Prod.fst).Nodup)
    (attributes : Attributes) {buf stop : ℕ} (halign : buf % 4 = 0)
    (hstop : buf + p.encode.length ≤ stop) (rest : List Byte) :
    ∃ table', parseProperties hash strings address (fuel + 1) attributes
        ⟨buf, stop, p.encode ++ rest⟩ table =
          parseProperties hash strings address fuel (attributes.extend [p.property])
            ⟨buf + p.encode.length, stop, rest⟩ table' ∧
      PhandleMap hash table' (entries ++ phandleEntries address [p.property]) := by
  have hlength := length_encode_property p
  rw [hnops] at hlength
  set data := p.property.data with hdata
  have hpeek := Cursor.peekTag_append (by decide : beginProp < 2 ^ 32) halign
    (by omega : buf + 4 ≤ stop) (beBytes 4 data.length ++ (beBytes 4 p.nameOffset ++
      (data ++ (padding data.length ++ rest))))
  have htag := Cursor.readTag_append (by decide : beginProp < 2 ^ 32) halign
    (by omega : buf + 4 ≤ stop) (beBytes 4 data.length ++ (beBytes 4 p.nameOffset ++
      (data ++ (padding data.length ++ rest))))
  have hlen := Cursor.readU32_append hp.length_lt (by omega : buf + 4 + 4 ≤ stop)
    (beBytes 4 p.nameOffset ++ (data ++ (padding data.length ++ rest)))
  have hoffset := Cursor.readU32_append hp.nameOffset_lt (by omega : buf + 4 + 4 + 4 ≤ stop)
    (data ++ (padding data.length ++ rest))
  have hbuffer := Cursor.readBuffer_append (by omega : buf + 4 + 4 + 4 + data.length ≤ stop)
    (padding data.length ++ rest)
  have hname := getString_prefix hp.name_ne hp.named
  have hpadding := Cursor.readPadding_append
    (by omega : (buf + 4 + 4 + 4 + data.length) % 4 = data.length % 4) stop rest
  obtain ⟨table', hspecial, hmap'⟩ := specialCases_eq hp hmap address hnew attributes
    (padding data.length ++ rest)
  refine ⟨table', ?_, hmap'⟩
  have hencode : p.encode ++ rest = beBytes 4 beginProp ++ (beBytes 4 data.length ++
      (beBytes 4 p.nameOffset ++ (data ++ (padding data.length ++ rest)))) := by
    simp [BlobProperty.encode, hnops, nopTokens, hdata]
  have hend : buf + 4 + 4 + 4 + data.length + (padding data.length).length =
      buf + p.encode.length := by omega
  rw [hend] at hpadding
  rw [hencode, parseProperties, hpeek, ok_bind, if_pos rfl, htag, ok_bind, hlen, ok_bind, hoffset,
    ok_bind, hbuffer, ok_bind, hname, ok_bind]
  change (specialCases hash address p.property (data ++ _)
    { attributes with properties := attributes.properties ++ [p.property] } table >>= _) = _
  rw [hspecial, ok_bind]
  exact congrArg (parseProperties hash strings address fuel _ · table') hpadding

/-- The bytes of the properties. -/
def encodeProperties (properties : List BlobProperty) : List Byte :=
  (properties.map BlobProperty.encode).flatten

theorem encodeProperties_cons (p : BlobProperty) (properties : List BlobProperty) :
    encodeProperties (p :: properties) = p.encode ++ encodeProperties properties := by
  simp [encodeProperties]

theorem length_encodeProperties (properties : List BlobProperty) :
    (encodeProperties properties).length % 4 = 0 ∧
      properties.length ≤ (encodeProperties properties).length := by
  induction properties with
  | nil => exact ⟨rfl, le_rfl⟩
  | cons p properties ih =>
      have hlength := length_encode_property p
      have hpadding := length_padding p.property.data.length
      rw [encodeProperties_cons, List.length_append, List.length_cons]
      omega

theorem phandleEntries_cons (address : ℕ) (p : Property) (properties : List Property) :
    phandleEntries address (p :: properties) =
      phandleEntries address [p] ++ phandleEntries address properties := by
  rw [phandleEntries, ← List.singleton_append, List.filter_append, List.map_append]
  rfl

/-- **The properties** that are not behind a `NOP`, up to what is not a property. -/
theorem parseProperties_eq {properties : List BlobProperty} {size : ℕ}
    (hproper : ∀ p ∈ properties, p.Proper (strings.take size))
    (hnops : ∀ p ∈ properties, p.nops = 0) (hmap : PhandleMap hash table entries)
    {address fuel : ℕ} (hfuel : properties.length < fuel)
    (hnew : ((entries ++ phandleEntries address (properties.map (·.property))).map Prod.fst).Nodup)
    (attributes : Attributes) {buf stop tag : ℕ} (halign : buf % 4 = 0) (htag : tag < 2 ^ 32)
    (hne : tag ≠ beginProp) (hstop : buf + (encodeProperties properties).length + 4 ≤ stop)
    (rest : List Byte) :
    ∃ table', parseProperties hash strings address fuel attributes
        ⟨buf, stop, encodeProperties properties ++ (beBytes 4 tag ++ rest)⟩ table =
          .ok (attributes.extend (properties.map (·.property)),
            ⟨buf + (encodeProperties properties).length, stop, beBytes 4 tag ++ rest⟩, table') ∧
      PhandleMap hash table'
        (entries ++ phandleEntries address (properties.map (·.property))) := by
  obtain ⟨fuel, rfl⟩ := Nat.exists_eq_succ_of_ne_zero (Nat.ne_of_gt (Nat.zero_lt_of_lt hfuel))
  induction properties generalizing entries table fuel attributes buf with
  | nil =>
      have hpeek := Cursor.peekTag_append htag halign (by omega : buf + 4 ≤ stop) rest
      refine ⟨table, ?_, by simpa [phandleEntries] using hmap⟩
      rw [List.map_nil, Attributes.extend_nil]
      exact parseProperties_succ hpeek hne
  | cons p properties ih =>
      have hp := hproper p List.mem_cons_self
      rw [List.map_cons, phandleEntries_cons, ← List.append_assoc] at hnew
      rw [List.length_cons] at hfuel
      rw [encodeProperties_cons, List.length_append] at hstop
      have hfirst : ((entries ++ phandleEntries address [p.property]).map Prod.fst).Nodup := by
        rw [List.map_append] at hnew
        exact (List.nodup_append.mp hnew).1
      have hlength := (length_encodeProperties [p]).1
      rw [encodeProperties_cons, show encodeProperties [] = [] from rfl, List.append_nil] at hlength
      obtain ⟨table₁, hone, hmap₁⟩ := parseProperties_cons hp (hnops p List.mem_cons_self) hmap
        address fuel hfirst attributes halign (by omega : buf + p.encode.length ≤ stop)
        (encodeProperties properties ++ (beBytes 4 tag ++ rest))
      obtain ⟨fuel, rfl⟩ := Nat.exists_eq_succ_of_ne_zero (by omega : fuel ≠ 0)
      obtain ⟨table', hrest, hmap'⟩ := ih (fun q hq => hproper q (List.mem_cons_of_mem _ hq))
        (fun q hq => hnops q (List.mem_cons_of_mem _ hq)) hmap₁ hnew (attributes.extend [p.property])
        (by omega : (buf + p.encode.length) % 4 = 0) (by omega) fuel (by omega)
      refine ⟨table', ?_, ?_⟩
      · rw [encodeProperties_cons, List.append_assoc, hone, hrest, List.map_cons,
          ← Attributes.extend_cons, List.length_append, Nat.add_assoc]
      · rw [List.map_cons, phandleEntries_cons, ← List.append_assoc]
        exact hmap'

end BekOS.DeviceTree
