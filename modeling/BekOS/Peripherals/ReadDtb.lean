import BekOS.Peripherals.ReadProperties

/-!
# What `read_dtb` makes of a blob

`parse_node` skips `NOP`s in front of the root and in front of the end of a node, and nowhere else.
With one in front of a property or of a child it leaves its loops, and fails at what it finds
behind the `NOP`s where the end of the node should be.
-/

namespace BekOS.DeviceTree

variable {hash : ℕ → ℕ} {strings : List Byte} {table : Hashtable ℕ ℕ} {entries : List (ℕ × ℕ)}

/-! ## Nodes -/

theorem closeNode_end {buf stop endNops : ℕ} (halign : buf % 4 = 0)
    (hstop : buf + 4 * endNops + 4 ≤ stop) (rest : List Byte) :
    closeNode ⟨buf, stop, nopTokens endNops ++ (beBytes 4 endNode ++ rest)⟩ =
      .ok ⟨buf + 4 * endNops + 4, stop, rest⟩ := by
  have hnops := Cursor.readNops_append (by decide : endNode < 2 ^ 32) (by decide) halign hstop rest
  have htag := Cursor.readTag_append (by decide : endNode < 2 ^ 32)
    (by omega : (buf + 4 * endNops) % 4 = 0) (by omega) rest
  rw [closeNode, hnops, ok_bind, htag, ok_bind, verify_of rfl]
  rfl

theorem closeNode_stuck {buf stop count tag : ℕ} (halign : buf % 4 = 0)
    (hstop : buf + 4 * count + 4 ≤ stop) (htag : tag < 2 ^ 32) (hnop : tag ≠ nop)
    (hend : tag ≠ endNode) (rest : List Byte) :
    closeNode ⟨buf, stop, nopTokens count ++ (beBytes 4 tag ++ rest)⟩ = .error .panic := by
  have hnops := Cursor.readNops_append htag hnop halign hstop rest
  have hread := Cursor.readTag_append htag (by omega : (buf + 4 * count) % 4 = 0) (by omega) rest
  rw [closeNode, hnops, ok_bind, hread, ok_bind, verify_of_not hend]
  rfl

theorem parseChildren_succ {tag fuel parent made : ℕ} {cursor : Cursor}
    (hpeek : cursor.peekTag = .ok tag) (hne : tag ≠ beginNode) :
    parseChildren hash strings (fuel + 1) parent ⟨cursor, table, made⟩ =
      .ok ([], ⟨cursor, table, made⟩) := by
  rw [parseChildren, hpeek, ok_bind, if_neg hne]
  rfl

namespace BlobNode

variable {nops buf stop : ℕ} {name : List Byte}

/-- `parse_node` up to the properties. -/
theorem parseNode_name (hash : ℕ → ℕ) (strings : List Byte) (table : Hashtable ℕ ℕ)
    (hname : 0 ∉ name) (properties : List BlobProperty) (children : List BlobNode)
    (endNops fuel made : ℕ) (parent : Option ℕ) (halign : buf % 4 = 0)
    (hstop : buf + 4 * nops + 4 + (encodeName name).length ≤ stop) (rest : List Byte) :
    parseNode hash strings (fuel + 1) parent
        ⟨⟨buf, stop, (BlobNode.mk nops name properties children endNops).encode ++ rest⟩, table,
          made⟩ = (do
      let bytes := encodeProperties properties ++ (encodeAll children ++
        (nopTokens endNops ++ (beBytes 4 endNode ++ rest)))
      let read ← parseProperties hash strings made (bytes.length + 1) newAttributes
        ⟨buf + 4 * nops + 4 + (encodeName name).length, stop, bytes⟩ table
      let children ← parseChildren hash strings fuel made ⟨read.2.1, read.2.2, made + 1⟩
      let cursor ← closeNode children.2.cursor
      return (.mk made parent ⟨name, read.1.properties⟩ read.1.compatible read.1.phandle
        children.1, { children.2 with cursor := cursor })) := by
  have hlength : (encodeName name).length =
      name.length + 1 + (padding (name.length + 1)).length := by
    simp only [encodeName, List.length_append, List.length_cons]
    omega
  set bytes := encodeProperties properties ++ (encodeAll children ++
    (nopTokens endNops ++ (beBytes 4 endNode ++ rest))) with hbytes
  have hencode : (BlobNode.mk nops name properties children endNops).encode ++ rest =
      nopTokens nops ++ (beBytes 4 beginNode ++
        (name ++ 0 :: (padding (name.length + 1) ++ bytes))) := by
    simp [encode, encodeName, encodeProperties, hbytes]
  have hnops := Cursor.readNops_append (by decide : beginNode < 2 ^ 32) (by decide) halign
    (by omega : buf + 4 * nops + 4 ≤ stop) (name ++ 0 :: (padding (name.length + 1) ++ bytes))
  have htag := Cursor.readTag_append (by decide : beginNode < 2 ^ 32)
    (by omega : (buf + 4 * nops) % 4 = 0) (by omega : buf + 4 * nops + 4 ≤ stop)
    (name ++ 0 :: (padding (name.length + 1) ++ bytes))
  have hstring := Cursor.readNullString_append hname (buf + 4 * nops + 4) stop
    (padding (name.length + 1) ++ bytes)
  have hpadding := Cursor.readPadding_append
    (by omega : (buf + 4 * nops + 4 + (name.length + 1)) % 4 = (name.length + 1) % 4) stop bytes
  have hend : buf + 4 * nops + 4 + (name.length + 1) + (padding (name.length + 1)).length =
      buf + 4 * nops + 4 + (encodeName name).length := by
    omega
  rw [hend] at hpadding
  rw [hencode, parseNode, hnops, ok_bind, htag, ok_bind, verify_of rfl, ok_bind, hstring, ok_bind]
  simp only [hpadding]

theorem length_encodeName (name : List Byte) : (encodeName name).length % 4 = 0 := by
  have hpadding := length_padding (name.length + 1)
  simp only [encodeName, List.length_append, List.length_cons]
  omega

theorem length_encode_mk (nops : ℕ) (name : List Byte) (properties : List BlobProperty)
    (children : List BlobNode) (endNops : ℕ) :
    (BlobNode.mk nops name properties children endNops).encode.length =
      4 * nops + 4 + (encodeName name).length + (encodeProperties properties).length +
        (encodeAll children).length + 4 * endNops + 4 := by
  simp only [encode, encodeProperties, List.length_append, length_nopTokens, length_beBytes]
  omega

mutual

theorem length_encode_mod : ∀ node : BlobNode, node.encode.length % 4 = 0
  | .mk nops name properties children endNops => by
      have hname := length_encodeName name
      have hproperties := (length_encodeProperties properties).1
      have hchildren := length_encodeAll_mod children
      rw [length_encode_mk]
      omega

theorem length_encodeAll_mod : ∀ nodes : List BlobNode, (encodeAll nodes).length % 4 = 0
  | [] => rfl
  | node :: rest => by
      have hnode := length_encode_mod node
      have hrest := length_encodeAll_mod rest
      rw [encodeAll, List.length_append]
      omega

end

theorem nopTokens_head (count : ℕ) {tag : ℕ} (htag : tag < 2 ^ 32) (rest : List Byte) :
    ∃ head more, nopTokens count ++ (beBytes 4 tag ++ rest) = beBytes 4 head ++ more ∧
      head < 2 ^ 32 ∧ (head = nop ∨ count = 0 ∧ head = tag) := by
  cases count with
  | zero => exact ⟨tag, rest, rfl, htag, Or.inr ⟨rfl, rfl⟩⟩
  | succ count =>
      refine ⟨nop, nopTokens count ++ (beBytes 4 tag ++ rest), ?_, by decide, Or.inl rfl⟩
      rw [nopTokens_succ, List.append_assoc]

theorem encodeAll_head (children : List BlobNode) (endNops : ℕ) (rest : List Byte) :
    ∃ head more, encodeAll children ++ (nopTokens endNops ++ (beBytes 4 endNode ++ rest)) =
      beBytes 4 head ++ more ∧ head < 2 ^ 32 ∧ head ≠ beginProp := by
  rcases children with _ | ⟨⟨nops, name, properties, below, childNops⟩, children⟩
  · obtain ⟨head, more, heq, hlt, hhead⟩ :=
      nopTokens_head endNops (by decide : endNode < 2 ^ 32) rest
    refine ⟨head, more, heq, hlt, ?_⟩
    rcases hhead with rfl | ⟨-, rfl⟩ <;> decide
  · obtain ⟨head, more, heq, hlt, hhead⟩ := nopTokens_head nops (by decide : beginNode < 2 ^ 32)
      (encodeName name ++ (encodeProperties properties ++ (encodeAll below ++
        (nopTokens childNops ++ (beBytes 4 endNode ++ (encodeAll children ++
          (nopTokens endNops ++ (beBytes 4 endNode ++ rest))))))))
    refine ⟨head, more, ?_, hlt, ?_⟩
    · rw [← heq]
      simp [encodeAll, encode, encodeProperties]
    · rcases hhead with rfl | ⟨-, rfl⟩ <;> decide

variable {properties : List BlobProperty} {endNops fuel made : ℕ}

theorem exists_nops (h : ¬∀ p ∈ properties, p.nops = 0) :
    ∃ before p after, properties = before ++ p :: after ∧ (∀ q ∈ before, q.nops = 0) ∧
      p.nops ≠ 0 := by
  induction properties with
  | nil => exact absurd (fun p hp => by cases hp) h
  | cons p properties ih =>
      by_cases hp : p.nops = 0
      · obtain ⟨before, q, after, heq, hbefore, hq⟩ :=
          ih fun hall => h (List.forall_mem_cons.mpr ⟨hp, hall⟩)
        exact ⟨p :: before, q, after, by rw [heq]; rfl, List.forall_mem_cons.mpr ⟨hp, hbefore⟩, hq⟩
      · exact ⟨[], p, properties, rfl, List.forall_mem_nil _, hp⟩

theorem phandles_described (nops : ℕ) (name : List Byte) (properties : List BlobProperty)
    (children : List BlobNode) (endNops address : ℕ) (parent : Option ℕ) :
    ((BlobNode.mk nops name properties children endNops).described address parent).phandles =
      phandleEntries address (properties.map (·.property)) ++
        ParsedNode.phandlesAll (describedAll children (address + 1) address) := by
  rw [described, ParsedNode.phandles]
  rfl

/-- The outcome of reading what a node or a list of nodes stands for. -/
def Reads {α : Type} (hash : ℕ → ℕ) (outcome : Except Fault (α × ParseState)) (value : α)
    (cursor : Cursor) (entries : List (ℕ × ℕ)) (made : ℕ) : Prop :=
  ∃ table, outcome = .ok (value, ⟨cursor, table, made⟩) ∧ PhandleMap hash table entries

/-- A property behind a `NOP`: the loops end, and so does the parse. -/
theorem parseNode_property (hname : 0 ∉ name) {size : ℕ}
    (hproper : ∀ p ∈ properties, p.Proper (strings.take size))
    (hnops : ¬∀ p ∈ properties, p.nops = 0) {children : List BlobNode} {parent : Option ℕ}
    (hfuel : 0 < fuel) (hmap : PhandleMap hash table entries)
    (hnew : ((entries ++ phandleEntries made (properties.map (·.property))).map Prod.fst).Nodup)
    (halign : buf % 4 = 0)
    (hstop : buf + (BlobNode.mk nops name properties children endNops).encode.length ≤ stop)
    (rest : List Byte) :
    parseNode hash strings (fuel + 1) parent
      ⟨⟨buf, stop, (BlobNode.mk nops name properties children endNops).encode ++ rest⟩, table,
        made⟩ = .error .panic := by
  have hname4 := length_encodeName name
  have hlength := length_encode_mk nops name properties children endNops
  rw [parseNode_name hash strings table hname _ children endNops fuel made parent halign (by omega)]
  obtain ⟨before, p, after, rfl, hbefore, hp⟩ := exists_nops hnops
  obtain ⟨count, hcount⟩ := Nat.exists_eq_succ_of_ne_zero hp
  have hbytes : encodeProperties (before ++ p :: after) = encodeProperties before ++
      (nopTokens (count + 1) ++ (beBytes 4 beginProp ++ (beBytes 4 p.property.data.length ++
        (beBytes 4 p.nameOffset ++ (p.property.data ++ (padding p.property.data.length ++
          encodeProperties after)))))) := by
    simp [encodeProperties, BlobProperty.encode, hcount]
  have hfuelBefore := (length_encodeProperties before).2
  have hbefore4 := (length_encodeProperties before).1
  have hle : (encodeProperties before).length + (4 * (count + 1) + 4) ≤
      (encodeProperties (before ++ p :: after)).length := by
    rw [hbytes]
    simp only [List.length_append, length_nopTokens, length_beBytes]
    omega
  have hnewBefore : ((entries ++ phandleEntries made (before.map (·.property))).map
      Prod.fst).Nodup := by
    refine hnew.sublist (List.Sublist.map _ (List.Sublist.append_left ?_ entries))
    rw [phandleEntries, phandleEntries, List.map_append, List.filter_append, List.map_append]
    exact List.sublist_append_left _ _
  set behind := beBytes 4 p.property.data.length ++ (beBytes 4 p.nameOffset ++ (p.property.data ++
    (padding p.property.data.length ++ (encodeProperties after ++ (encodeAll children ++
      (nopTokens endNops ++ (beBytes 4 endNode ++ rest))))))) with hbehind
  have hwhole : encodeProperties (before ++ p :: after) ++ (encodeAll children ++
      (nopTokens endNops ++ (beBytes 4 endNode ++ rest))) = encodeProperties before ++
        (beBytes 4 nop ++ (nopTokens count ++ (beBytes 4 beginProp ++ behind))) := by
    rw [hbytes, nopTokens_succ, hbehind]
    simp only [List.append_assoc]
  obtain ⟨table', hread, -⟩ := parseProperties_eq
    (fun q hq => hproper q (List.mem_append_left _ hq)) hbefore hmap
    (by rw [List.length_append]; omega :
      before.length < (encodeProperties before ++ (beBytes 4 nop ++ (nopTokens count ++
        (beBytes 4 beginProp ++ behind)))).length + 1) hnewBefore newAttributes
    (by omega : (buf + 4 * nops + 4 + (encodeName name).length) % 4 = 0) (by decide : nop < 2 ^ 32)
    (by decide : nop ≠ beginProp)
    (by omega : buf + 4 * nops + 4 + (encodeName name).length + (encodeProperties before).length + 4 ≤
      stop) (nopTokens count ++ (beBytes 4 beginProp ++ behind))
  obtain ⟨fuel, rfl⟩ := Nat.exists_eq_succ_of_ne_zero (Nat.ne_of_gt hfuel)
  have halign' : (buf + 4 * nops + 4 + (encodeName name).length +
      (encodeProperties before).length) % 4 = 0 := by
    omega
  have hpeek := Cursor.peekTag_append (by decide : nop < 2 ^ 32) halign' (by omega : _ ≤ stop)
    (nopTokens count ++ (beBytes 4 beginProp ++ behind))
  have hclose := closeNode_stuck halign' (by omega : _ + 4 * (count + 1) + 4 ≤ stop)
    (by decide : beginProp < 2 ^ 32) (by decide) (by decide) behind
  rw [nopTokens_succ, List.append_assoc] at hclose
  simp only [hwhole]
  rw [hread, ok_bind]
  simp only [parseChildren_succ hpeek (by decide), ok_bind, hclose, error_bind]

/-- What reading a node comes to: the node that is described if no `NOP` stands in the way, and a
failed `VERIFY` otherwise. -/
def NodeOutcome (hash : ℕ → ℕ) (strings : List Byte) (node : BlobNode) (fuel : ℕ)
    (parent : Option ℕ) (buf stop : ℕ) (rest : List Byte) (table : Hashtable ℕ ℕ)
    (entries : List (ℕ × ℕ)) (made : ℕ) : Prop :=
  let outcome := parseNode hash strings fuel parent ⟨⟨buf, stop, node.encode ++ rest⟩, table, made⟩
  (node.Clean → Reads hash outcome (node.described made parent)
    ⟨buf + node.encode.length, stop, rest⟩
    (entries ++ (node.described made parent).phandles) (made + node.count)) ∧
  (¬node.Clean → outcome = .error .panic)

/-- What reading the children of a node comes to, with the `NOP`s and the end of the node behind
them. -/
def ChildrenOutcome (hash : ℕ → ℕ) (strings : List Byte) (nodes : List BlobNode) (fuel parent : ℕ)
    (buf stop : ℕ) (endNops : ℕ) (rest : List Byte) (table : Hashtable ℕ ℕ)
    (entries : List (ℕ × ℕ)) (made : ℕ) : Prop :=
  let tail := nopTokens endNops ++ (beBytes 4 endNode ++ rest)
  let outcome := parseChildren hash strings fuel parent
    ⟨⟨buf, stop, encodeAll nodes ++ tail⟩, table, made⟩
  (CleanAll nodes → Reads hash outcome (describedAll nodes made parent)
    ⟨buf + (encodeAll nodes).length, stop, tail⟩
    (entries ++ ParsedNode.phandlesAll (describedAll nodes made parent)) (made + countAll nodes)) ∧
  (¬CleanAll nodes → (do closeNode (← outcome).2.cursor) = .error .panic)

theorem nodeOutcome_mk {children : List BlobNode} {size : ℕ} {parent : Option ℕ}
    (hproper : (BlobNode.mk nops name properties children endNops).Proper (strings.take size))
    (hfuel : 0 < fuel) (hmap : PhandleMap hash table entries)
    (hnew : ((entries ++ ((BlobNode.mk nops name properties children endNops).described made
      parent).phandles).map Prod.fst).Nodup) (halign : buf % 4 = 0)
    (hstop : buf + (BlobNode.mk nops name properties children endNops).encode.length ≤ stop)
    (rest : List Byte) (hchildren : ∀ table',
      PhandleMap hash table' (entries ++ phandleEntries made (properties.map (·.property))) →
        ChildrenOutcome hash strings children fuel made
          (buf + 4 * nops + 4 + (encodeName name).length + (encodeProperties properties).length) stop
          endNops rest table' (entries ++ phandleEntries made (properties.map (·.property)))
          (made + 1)) :
    NodeOutcome hash strings (BlobNode.mk nops name properties children endNops) (fuel + 1) parent
      buf stop rest table entries made := by
  obtain ⟨hname, hproperties, -⟩ := hproper
  have hname4 := length_encodeName name
  have hproperties4 := length_encodeProperties properties
  have hchildren4 := length_encodeAll_mod children
  have hlength := length_encode_mk nops name properties children endNops
  have hentries := phandles_described nops name properties children endNops made parent
  rw [hentries, ← List.append_assoc] at hnew
  have hnewProperties : ((entries ++ phandleEntries made (properties.map (·.property))).map
      Prod.fst).Nodup := by
    rw [List.map_append] at hnew
    exact (List.nodup_append.mp hnew).1
  by_cases hnops : ∀ p ∈ properties, p.nops = 0
  · obtain ⟨head, more, hhead, hlt, hne⟩ := encodeAll_head children endNops rest
    obtain ⟨table', hread, hmap'⟩ := parseProperties_eq hproperties hnops hmap
      (by rw [List.length_append]; omega :
        properties.length < (encodeProperties properties ++ (beBytes 4 head ++ more)).length + 1)
      hnewProperties newAttributes
      (by omega : (buf + 4 * nops + 4 + (encodeName name).length) % 4 = 0) hlt hne
      (by omega : _ ≤ stop) more
    rw [← hhead] at hread
    obtain ⟨hclean, hunclean⟩ := hchildren table' hmap'
    have hend := closeNode_end
      (by omega : (buf + 4 * nops + 4 + (encodeName name).length +
        (encodeProperties properties).length + (encodeAll children).length) % 4 = 0)
      (by omega : _ + 4 * endNops + 4 ≤ stop) rest
    have hstart := parseNode_name hash strings table hname properties children endNops fuel made
      parent halign (by omega : buf + 4 * nops + 4 + (encodeName name).length ≤ stop) rest
    have hcursor : buf + 4 * nops + 4 + (encodeName name).length +
        (encodeProperties properties).length + (encodeAll children).length + 4 * endNops + 4 =
          buf + (BlobNode.mk nops name properties children endNops).encode.length := by
      omega
    rw [hcursor] at hend
    rw [NodeOutcome]
    simp only [hstart, hread, ok_bind]
    constructor
    · rintro ⟨-, hall⟩
      obtain ⟨table'', hrest, hmap''⟩ := hclean hall
      refine ⟨table'', ?_, by rw [hentries, ← List.append_assoc]; exact hmap''⟩
      simp only [hrest, ok_bind, hend]
      rw [described, count, ← Nat.add_assoc]
      rfl
    · intro hnot
      have hall : ¬CleanAll children := fun hall => hnot ⟨hnops, hall⟩
      have herror := hunclean hall
      cases hrest : parseChildren hash strings fuel made ⟨⟨buf + 4 * nops + 4 +
        (encodeName name).length + (encodeProperties properties).length, stop,
          encodeAll children ++ (nopTokens endNops ++ (beBytes 4 endNode ++ rest))⟩, table',
            made + 1⟩ with
      | error fault =>
          rw [hrest] at herror
          have hfault : fault = .panic := by
            rw [error_bind] at herror
            injection herror
          rw [error_bind, hfault]
      | ok found =>
          rw [hrest, ok_bind] at herror
          simp only [ok_bind, herror, error_bind]
  · refine ⟨fun hclean => absurd hclean.1 hnops, fun _ => ?_⟩
    exact parseNode_property hname hproperties hnops hfuel hmap hnewProperties halign hstop rest

theorem le_length_encode (node : BlobNode) : 4 * node.nops + 8 ≤ node.encode.length := by
  obtain ⟨nops, name, properties, children, endNops⟩ := node
  rw [length_encode_mk, BlobNode.nops]
  omega

theorem encode_head (node : BlobNode) (rest : List Byte) :
    ∃ more, node.encode ++ rest = nopTokens node.nops ++ (beBytes 4 beginNode ++ more) := by
  obtain ⟨nops, name, properties, children, endNops⟩ := node
  refine ⟨encodeName name ++ (encodeProperties properties ++ (encodeAll children ++
    (nopTokens endNops ++ (beBytes 4 endNode ++ rest)))), ?_⟩
  simp [encode, encodeProperties, BlobNode.nops]

theorem parseChildren_step {parent : ℕ} {cursor : Cursor} (hpeek : cursor.peekTag = .ok beginNode) :
    parseChildren hash strings (fuel + 1) parent ⟨cursor, table, made⟩ = (do
      let child ← parseNode hash strings fuel (some parent) ⟨cursor, table, made⟩
      let rest ← parseChildren hash strings fuel parent child.2
      return (child.1 :: rest.1, rest.2)) := by
  rw [parseChildren, hpeek, ok_bind, if_pos rfl]

/-- A child in front of others: its outcome, and theirs if it is read. -/
theorem childrenOutcome_cons {node : BlobNode} {nodes : List BlobNode} {parent : ℕ}
    {rest : List Byte} (halign : buf % 4 = 0) (hstop : buf + node.encode.length ≤ stop)
    (hnode : NodeOutcome hash strings node fuel (some parent) buf stop
      (encodeAll nodes ++ (nopTokens endNops ++ (beBytes 4 endNode ++ rest))) table entries made)
    (hnodes : ∀ table',
      PhandleMap hash table' (entries ++ (node.described made (some parent)).phandles) →
        ChildrenOutcome hash strings nodes fuel parent (buf + node.encode.length) stop endNops rest
          table' (entries ++ (node.described made (some parent)).phandles) (made + node.count)) :
    ChildrenOutcome hash strings (node :: nodes) (fuel + 1) parent buf stop endNops rest table
      entries made := by
  set tail := nopTokens endNops ++ (beBytes 4 endNode ++ rest) with htail
  have hlength := node.le_length_encode
  obtain ⟨more, hhead⟩ := node.encode_head (encodeAll nodes ++ tail)
  have hencode : encodeAll (node :: nodes) ++ tail = node.encode ++ (encodeAll nodes ++ tail) := by
    rw [encodeAll, List.append_assoc]
  rw [ChildrenOutcome, ← htail, hencode]
  by_cases hnops : node.nops = 0
  · have hpeek : (Cursor.mk buf stop (node.encode ++ (encodeAll nodes ++ tail))).peekTag =
        .ok beginNode := by
      rw [hhead, hnops]
      exact Cursor.peekTag_append (by decide) halign (by omega) more
    simp only [parseChildren_step hpeek]
    obtain ⟨hclean, hunclean⟩ := hnode
    by_cases hthis : node.Clean
    · obtain ⟨table', hread, hmap'⟩ := hclean hthis
      obtain ⟨hcleanAll, huncleanAll⟩ := hnodes table' hmap'
      simp only [hread, ok_bind]
      constructor
      · rintro ⟨-, hall⟩
        obtain ⟨table'', hrest, hmap''⟩ := hcleanAll hall
        rw [← htail] at hrest
        refine ⟨table'', ?_, ?_⟩
        · simp only [hrest, ok_bind]
          rw [describedAll, countAll, encodeAll, List.length_append, Nat.add_assoc made,
            Nat.add_assoc buf]
          rfl
        · rw [describedAll, ParsedNode.phandlesAll, ← List.append_assoc]
          exact hmap''
      · intro hnot
        have herror := huncleanAll fun hall => hnot ⟨⟨hnops, hthis⟩, hall⟩
        rw [bind_assoc]
        exact herror
    · refine ⟨fun h => absurd h.1.2 hthis, fun _ => ?_⟩
      simp only [hunclean hthis, error_bind]
  · refine ⟨fun h => absurd h.1.1 hnops, fun _ => ?_⟩
    obtain ⟨count, hcount⟩ := Nat.exists_eq_succ_of_ne_zero hnops
    have hclose := closeNode_stuck halign (by omega : buf + 4 * (count + 1) + 4 ≤ stop)
      (by decide : beginNode < 2 ^ 32) (by decide) (by decide) more
    have hpeek := Cursor.peekTag_append (by decide : nop < 2 ^ 32) halign
      (by omega : buf + 4 ≤ stop) (nopTokens count ++ (beBytes 4 beginNode ++ more))
    rw [nopTokens_succ, List.append_assoc] at hclose
    rw [hhead, hcount, nopTokens_succ, List.append_assoc]
    simp only [parseChildren_succ hpeek (by decide), ok_bind, hclose]

mutual

/-- **One node.** -/
theorem parseNode_outcome : ∀ (node : BlobNode) {size fuel made : ℕ} {parent : Option ℕ}
    {table : Hashtable ℕ ℕ} {entries : List (ℕ × ℕ)} {buf stop : ℕ} (rest : List Byte),
    node.Proper (strings.take size) → node.encode.length ≤ fuel → PhandleMap hash table entries →
    ((entries ++ (node.described made parent).phandles).map Prod.fst).Nodup → buf % 4 = 0 →
    buf + node.encode.length ≤ stop →
    NodeOutcome hash strings node fuel parent buf stop rest table entries made
  | .mk nops name properties children endNops, size, fuel, made, parent, table, entries, buf, stop,
      rest, hproper, hfuel, hmap, hnew, halign, hstop => by
      have hname4 := length_encodeName name
      have hproperties4 := (length_encodeProperties properties).1
      have hlength := length_encode_mk nops name properties children endNops
      obtain ⟨fuel, rfl⟩ := Nat.exists_eq_succ_of_ne_zero (by omega : fuel ≠ 0)
      refine nodeOutcome_mk hproper (by omega) hmap hnew halign hstop rest fun table' hmap' => ?_
      rw [phandles_described, ← List.append_assoc] at hnew
      exact parseChildren_outcome children hproper.2.2 (by omega) hmap' hnew (by omega) (by omega)

/-- **The children of a node.** -/
theorem parseChildren_outcome : ∀ (nodes : List BlobNode) {size fuel made parent : ℕ}
    {table : Hashtable ℕ ℕ} {entries : List (ℕ × ℕ)} {buf stop endNops : ℕ} {rest : List Byte},
    ProperAll (strings.take size) nodes → (encodeAll nodes).length < fuel →
    PhandleMap hash table entries →
    ((entries ++ ParsedNode.phandlesAll (describedAll nodes made parent)).map Prod.fst).Nodup →
    buf % 4 = 0 → buf + (encodeAll nodes).length + 4 * endNops + 4 ≤ stop →
    ChildrenOutcome hash strings nodes fuel parent buf stop endNops rest table entries made
  | [], size, fuel, made, parent, table, entries, buf, stop, endNops, rest, _, hfuel, hmap, _,
      halign, hstop => by
      obtain ⟨head, more, hhead, hlt, hne⟩ :=
        nopTokens_head endNops (by decide : endNode < 2 ^ 32) rest
      have hbegin : head ≠ beginNode := by
        rcases hne with rfl | ⟨-, rfl⟩ <;> decide
      rw [encodeAll, List.length_nil] at hstop
      have hpeek := Cursor.peekTag_append hlt halign (by omega : buf + 4 ≤ stop) more
      obtain ⟨fuel, rfl⟩ := Nat.exists_eq_succ_of_ne_zero (Nat.ne_of_gt (Nat.zero_lt_of_lt hfuel))
      rw [ChildrenOutcome, encodeAll, List.nil_append, hhead]
      refine ⟨fun _ => ⟨table, parseChildren_succ hpeek hbegin, ?_⟩, fun h => absurd trivial h⟩
      simpa [describedAll, ParsedNode.phandlesAll] using hmap
  | node :: nodes, size, fuel, made, parent, table, entries, buf, stop, endNops, rest, hproper,
      hfuel, hmap, hnew, halign, hstop => by
      rw [encodeAll, List.length_append] at hfuel hstop
      have hpos := node.le_length_encode
      have hnode4 := length_encode_mod node
      obtain ⟨fuel, rfl⟩ := Nat.exists_eq_succ_of_ne_zero (Nat.ne_of_gt (Nat.zero_lt_of_lt hfuel))
      rw [describedAll, ParsedNode.phandlesAll, ← List.append_assoc] at hnew
      have hnewNode : ((entries ++ (node.described made (some parent)).phandles).map
          Prod.fst).Nodup := by
        rw [List.map_append] at hnew
        exact (List.nodup_append.mp hnew).1
      have hnode := parseNode_outcome node
        (encodeAll nodes ++ (nopTokens endNops ++ (beBytes 4 endNode ++ rest))) hproper.1
        (by omega : _ ≤ fuel) hmap hnewNode halign (by omega : _ ≤ stop)
      refine childrenOutcome_cons halign (by omega) hnode fun table' hmap' => ?_
      exact parseChildren_outcome nodes hproper.2 (by omega) hmap' hnew (by omega) (by omega)

end

end BlobNode

/-! ## The header and the reserved regions -/

variable {blob : List Byte} {offset : ℕ}

theorem prefix_drop {first second : List Byte} (h : first ++ second <+: blob) {count : ℕ}
    (hcount : count = first.length) : second <+: blob.drop count := by
  obtain ⟨rest, rfl⟩ := h
  rw [hcount, List.append_assoc, List.drop_left]
  exact List.prefix_append second rest

theorem wordAt_of_front {width value : ℕ} (hwidth : 0 < width)
    (h : beBytes width value <+: blob.drop offset) (hvalue : value < 256 ^ width) :
    wordAt blob offset width = .ok value := by
  have hlen := h.length_le
  rw [length_beBytes, List.length_drop] at hlen
  have htake : (blob.drop offset).take width = beBytes width value := by
    obtain ⟨rest, hrest⟩ := h
    rw [← hrest, List.take_left' (length_beBytes width value)]
  rw [wordAt, htake, beNat_beBytes, Nat.mod_eq_of_lt hvalue]
  exact if_pos (by omega)

theorem words_front {words : List ℕ} (h : (words.map (beBytes 4)).flatten <+: blob) {i : ℕ}
    {word : ℕ} (hi : words[i]? = some word) : beBytes 4 word <+: blob.drop (4 * i) := by
  induction words generalizing blob i with
  | nil => cases hi
  | cons first words ih =>
      rw [List.map_cons, List.flatten_cons] at h
      cases i with
      | zero =>
          cases hi
          exact (List.prefix_append _ _).trans h
      | succ i =>
          have hrest := ih (prefix_drop h (length_beBytes 4 first).symm) hi
          rw [List.drop_drop] at hrest
          rw [Nat.mul_succ, Nat.add_comm]
          exact hrest

theorem readHeader_eq {header : Header} (hlt : ∀ word ∈ header.words, word < 2 ^ 32)
    (h : (header.words.map (beBytes 4)).flatten <+: blob) : readHeader blob = .ok header := by
  have hword : ∀ {i word : ℕ}, header.words[i]? = some word → wordAt blob (4 * i) 4 = .ok word :=
    fun hi => wordAt_of_front (by decide) (words_front h hi) (hlt _ (List.mem_of_getElem? hi))
  have h0 : wordAt blob 0 4 = _ := hword (i := 0) rfl
  have h1 : wordAt blob 4 4 = _ := hword (i := 1) rfl
  have h2 : wordAt blob 8 4 = _ := hword (i := 2) rfl
  have h3 : wordAt blob 12 4 = _ := hword (i := 3) rfl
  have h4 : wordAt blob 16 4 = _ := hword (i := 4) rfl
  have h5 : wordAt blob 20 4 = _ := hword (i := 5) rfl
  have h6 : wordAt blob 24 4 = _ := hword (i := 6) rfl
  have h7 : wordAt blob 28 4 = _ := hword (i := 7) rfl
  have h8 : wordAt blob 32 4 = _ := hword (i := 8) rfl
  have h9 : wordAt blob 36 4 = _ := hword (i := 9) rfl
  rw [readHeader, h0, h1, h2, h3, h4, h5, h6, h7, h8, h9]
  rfl

theorem wordAt_region {region : ReservedRegion} {more : List Byte}
    (h : region.encode ++ more <+: blob.drop offset) (haddress : region.address < 2 ^ 64)
    (hsize : region.size < 2 ^ 64) :
    wordAt blob offset 8 = .ok region.address ∧ wordAt blob (offset + 8) 8 = .ok region.size ∧
      more <+: blob.drop (offset + 16) := by
  rw [ReservedRegion.encode, List.append_assoc] at h
  have hrest := prefix_drop h (length_beBytes 8 region.address).symm
  have hmore := prefix_drop hrest (length_beBytes 8 region.size).symm
  rw [List.drop_drop] at hrest
  rw [List.drop_drop, List.drop_drop] at hmore
  exact ⟨wordAt_of_front (by decide) ((List.prefix_append _ _).trans h) haddress,
    wordAt_of_front (by decide) ((List.prefix_append _ _).trans hrest) hsize, hmore⟩

theorem readReserved_eq {regions : List ReservedRegion}
    (hne : ∀ region ∈ regions, ¬(region.address = 0 ∧ region.size = 0))
    (hlt : ∀ region ∈ regions, region.address < 2 ^ 64 ∧ region.size < 2 ^ 64) {fuel : ℕ}
    (hfuel : regions.length < fuel)
    (h : (regions.map ReservedRegion.encode).flatten ++ ReservedRegion.encode ⟨0, 0⟩ <+:
      blob.drop offset) : readReserved blob fuel offset = .ok regions := by
  induction regions generalizing offset fuel with
  | nil =>
      obtain ⟨fuel, rfl⟩ := Nat.exists_eq_succ_of_ne_zero (Nat.ne_of_gt hfuel)
      rw [List.map_nil, List.flatten_nil, List.nil_append, ← List.append_nil (ReservedRegion.encode _)] at h
      obtain ⟨haddress, hsize, -⟩ := wordAt_region h (by decide) (by decide)
      rw [readReserved, haddress, ok_bind, hsize, ok_bind, if_pos ⟨rfl, rfl⟩]
      rfl
  | cons region regions ih =>
      obtain ⟨fuel, rfl⟩ := Nat.exists_eq_succ_of_ne_zero (Nat.ne_of_gt (Nat.zero_lt_of_lt hfuel))
      rw [List.map_cons, List.flatten_cons, List.append_assoc] at h
      have hregion := hlt region List.mem_cons_self
      obtain ⟨haddress, hsize, hmore⟩ := wordAt_region h hregion.1 hregion.2
      have hrest := ih (fun r hr => hne r (List.mem_cons_of_mem _ hr))
        (fun r hr => hlt r (List.mem_cons_of_mem _ hr)) (Nat.lt_of_succ_lt_succ hfuel) hmore
      rw [readReserved, haddress, ok_bind, hsize, ok_bind, if_neg (hne region List.mem_cons_self),
        hrest]
      rfl

theorem length_flatten_regions (regions : List ReservedRegion) :
    regions.length ≤ (regions.map ReservedRegion.encode).flatten.length := by
  induction regions with
  | nil => exact le_rfl
  | cons region regions ih =>
      rw [List.map_cons, List.flatten_cons, List.length_append, ReservedRegion.encode,
        List.length_append, length_beBytes, List.length_cons]
      omega

/-- **`read_dtb`** returns what a well-formed blob describes exactly when no `NOP` stands in front
of a property, or of a node other than the root. -/
theorem readDtb_iff (hash : ℕ → ℕ) {base : ℕ} {blob : List Byte} {header : Header}
    {described : Blob} (h : Describes base blob header described) :
    (∃ phandles, readDtb hash base blob =
        .ok ⟨described.reserved, some described.tree, phandles⟩ ∧
      ∀ phandle, phandles.find hash phandle = some (described.tree.phandles.lookup phandle)) ↔
      described.root.Clean := by
  have hheader := readHeader_eq h.words_lt h.headed
  have hreservedFuel : described.reserved.length < blob.length + 1 := by
    have hle := h.reserved.length_le
    have hregions := length_flatten_regions described.reserved
    rw [Blob.encodeReserved, List.length_append, List.length_drop] at hle
    omega
  have hreserved := readReserved_eq h.region_ne h.region_lt hreservedFuel h.reserved
  obtain ⟨rest, hrest⟩ := h.struct
  have hlen : described.encode.length ≤ blob.length - header.offDtStruct := by
    have hle := h.struct.length_le
    rwa [List.length_drop] at hle
  have hpos := described.root.le_length_encode
  have hencode : described.encode.length =
      described.root.encode.length + (4 * described.endNops + 4) := by
    simp [Blob.encode]
  have hsize := h.struct_size
  have haligned := h.aligned
  have hoffset := h.struct_aligned
  have hmap : PhandleMap hash (.new 4) [] := Hashtable.Unextracted.new le_rfl
  have hfuel : described.root.encode.length ≤ (blob.drop header.offDtStruct).length + 1 := by
    rw [← hrest, List.length_append]
    omega
  have hnew : (([] ++ (described.root.described 0 none).phandles).map Prod.fst).Nodup := h.phandles
  have hnode := BlobNode.parseNode_outcome described.root
    (nopTokens described.endNops ++ (beBytes 4 endOfTree ++ rest)) h.proper hfuel hmap hnew
    (by omega : (base + header.offDtStruct) % 4 = 0)
    (by omega : _ ≤ base + header.offDtStruct + header.sizeDtStruct)
  have hbytes : described.root.encode ++
      (nopTokens described.endNops ++ (beBytes 4 endOfTree ++ rest)) =
        blob.drop header.offDtStruct := by
    rw [← hrest, Blob.encode]
    simp only [List.append_assoc]
  rw [BlobNode.NodeOutcome, hbytes] at hnode
  obtain ⟨hclean, hunclean⟩ := hnode
  have hread : readDtb hash base blob = (do
      let root ← parseNode hash (blob.drop header.offDtStrings)
        ((blob.drop header.offDtStruct).length + 1) none
        ⟨⟨base + header.offDtStruct, base + header.offDtStruct + header.sizeDtStruct,
          blob.drop header.offDtStruct⟩, .new 4, 0⟩
      return ⟨described.reserved, some root.1, root.2.phandles⟩) := by
    rw [readDtb, hheader, ok_bind, if_neg (not_not.mpr h.magic), hreserved, ok_bind,
      verify_of (by omega), ok_bind, verify_of h.strings_le, ok_bind]
  rw [hread]
  constructor
  · rintro ⟨phandles, hok, -⟩
    by_contra hnot
    rw [hunclean hnot] at hok
    cases hok
  · intro hroot
    obtain ⟨table, hparse, hmap'⟩ := hclean hroot
    refine ⟨table, ?_, fun phandle => hmap'.find_eq hashRespects phandle⟩
    rw [hparse]
    rfl

/-- A blob with a node below its root, so many `NOP`s in front of the node, and others where they
are skipped. -/
def sampleBlob (nops : ℕ) : Blob where
  reserved := [⟨0x1000, 0x2000⟩]
  root := .mk 1 [] [⟨0, 0, ⟨compatibleTag, bytesOf "ab" ++ [0]⟩⟩]
    [.mk nops (bytesOf "c") [⟨0, 11, ⟨phandleTag, beBytes 4 5⟩⟩] [] 1] 2
  endNops := 1

/-- The header of the blob, with the blocks one behind the other. -/
def sampleHeader (nops : ℕ) : Header :=
  let size := (sampleBlob nops).encode.length
  ⟨dtbMagic, 72 + size + 19, 72, 72 + size, 40, 17, 16, 0, 19, size⟩

/-- The bytes of the blob. -/
def sampleBytes (nops : ℕ) : List Byte :=
  ((sampleHeader nops).words.map (beBytes 4)).flatten ++ (sampleBlob nops).encodeReserved ++
    (sampleBlob nops).encode ++ (compatibleTag ++ 0 :: phandleTag ++ [0])

theorem sampleBlob_proper (nops : ℕ) :
    (sampleBlob nops).root.Proper (compatibleTag ++ 0 :: phandleTag ++ [0]) := by
  have hcompatible : (⟨0, 0, ⟨compatibleTag, bytesOf "ab" ++ [0]⟩⟩ : BlobProperty).Proper
      (compatibleTag ++ 0 :: phandleTag ++ [0]) :=
    ⟨by decide, by decide, by decide, by decide, fun _ => ⟨[bytesOf "ab"], by decide, by decide⟩,
      fun h => absurd h (by decide)⟩
  have hphandle : (⟨0, 11, ⟨phandleTag, beBytes 4 5⟩⟩ : BlobProperty).Proper
      (compatibleTag ++ 0 :: phandleTag ++ [0]) :=
    ⟨by decide, by decide, by decide, by decide, fun h => absurd h (by decide), fun _ => by decide⟩
  exact ⟨by decide, List.forall_mem_singleton.mpr hcompatible,
    ⟨by decide, List.forall_mem_singleton.mpr hphandle, trivial⟩, trivial⟩

theorem sampleBlob_describes {nops : ℕ} (hnops : nops ≤ 1) :
    Describes 0 (sampleBytes nops) (sampleHeader nops) (sampleBlob nops) := by
  have hproper := sampleBlob_proper nops
  rcases (by omega : nops = 0 ∨ nops = 1) with rfl | rfl
  · exact ⟨by decide, by decide, by decide, by decide +kernel, by decide +kernel, by decide,
      by decide, by decide, by decide +kernel, by decide, by decide +kernel, hproper, by decide⟩
  · exact ⟨by decide, by decide, by decide, by decide +kernel, by decide +kernel, by decide,
      by decide, by decide, by decide +kernel, by decide, by decide +kernel, hproper, by decide⟩

theorem readDtb_iff_skipped : ∃ phandles, readDtb id 0 (sampleBytes 0) =
      .ok ⟨[⟨0x1000, 0x2000⟩], some (sampleBlob 0).tree, phandles⟩ ∧
    ∀ phandle, phandles.find id phandle = some ((sampleBlob 0).tree.phandles.lookup phandle) :=
  (readDtb_iff id (sampleBlob_describes (by decide : 0 ≤ 1))).mpr
    ⟨by decide, ⟨rfl, by decide, trivial⟩, trivial⟩

theorem readDtb_fails : Describes 0 (sampleBytes 1) (sampleHeader 1) (sampleBlob 1) ∧
    ¬∃ phandles, readDtb id 0 (sampleBytes 1) =
      .ok ⟨(sampleBlob 1).reserved, some (sampleBlob 1).tree, phandles⟩ := by
  have hnone : (readDtb id 0 (sampleBytes 1)).toOption.isNone = true := by decide +kernel
  refine ⟨sampleBlob_describes le_rfl, ?_⟩
  rintro ⟨phandles, hok⟩
  rw [hok] at hnone
  cases hnone

end BekOS.DeviceTree
