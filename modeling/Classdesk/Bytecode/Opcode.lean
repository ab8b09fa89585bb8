/-!
# Opcodes

The first byte of an instruction. `mnemonics` names the opcodes `00` to `C9` in
order; the bytes above have no name. `operands` says what follows the opcode.
-/

namespace Classdesk.Opcode

/-- The names of the opcodes from `00` on. -/
def mnemonics : Array String :=
  #["nop", "aconst_null", "iconst_m1", "iconst_0", "iconst_1", "iconst_2", "iconst_3",
    "iconst_4", "iconst_5", "lconst_0", "lconst_1", "fconst_0", "fconst_1", "fconst_2",
    "dconst_0", "dconst_1", "bipush", "sipush", "ldc", "ldc_w", "ldc2_w", "iload", "lload",
    "fload", "dload", "aload", "iload_0", "iload_1", "iload_2", "iload_3", "lload_0",
    "lload_1", "lload_2", "lload_3", "fload_0", "fload_1", "fload_2", "fload_3", "dload_0",
    "dload_1", "dload_2", "dload_3", "aload_0", "aload_1", "aload_2", "aload_3", "iaload",
    "laload", "faload", "daload", "aaload", "baload", "caload", "saload", "istore",
    "lstore", "fstore", "dstore", "astore", "istore_0", "istore_1", "istore_2", "istore_3",
    "lstore_0", "lstore_1", "lstore_2", "lstore_3", "fstore_0", "fstore_1", "fstore_2",
    "fstore_3", "dstore_0", "dstore_1", "dstore_2", "dstore_3", "astore_0", "astore_1",
    "astore_2", "astore_3", "iastore", "lastore", "fastore", "dastore", "aastore",
    "bastore", "castore", "sastore", "pop", "pop2", "dup", "dup_x1", "dup_x2", "dup2",
    "dup2_x1", "dup2_x2", "swap", "iadd", "ladd", "fadd", "dadd", "isub", "lsub", "fsub",
    "dsub", "imul", "lmul", "fmul", "dmul", "idiv", "ldiv", "fdiv", "ddiv", "irem", "lrem",
    "frem", "drem", "ineg", "lneg", "fneg", "dneg", "ishl", "lshl", "ishr", "lshr",
    "iushr", "lushr", "iand", "land", "ior", "lor", "ixor", "lxor", "iinc", "i2l", "i2f",
    "i2d", "l2i", "l2f", "l2d", "f2i", "f2l", "f2d", "d2i", "d2l", "d2f", "i2b", "i2c",
    "i2s", "lcmp", "fcmpl", "fcmpg", "dcmpl", "dcmpg", "ifeq", "ifne", "iflt", "ifge",
    "ifgt", "ifle", "if_icmpeq", "if_icmpne", "if_icmplt", "if_icmpge", "if_icmpgt",
    "if_icmple", "if_acmpeq", "if_acmpne", "goto", "jsr", "ret", "tableswitch",
    "lookupswitch", "ireturn", "lreturn", "freturn", "dreturn", "areturn", "return",
    "getstatic", "putstatic", "getfield", "putfield", "invokevirtual", "invokespecial",
    "invokestatic", "invokeinterface", "invokedynamic", "new", "newarray", "anewarray",
    "arraylength", "athrow", "checkcast", "instanceof", "monitorenter", "monitorexit",
    "wide", "multianewarray", "ifnull", "ifnonnull", "goto_w", "jsr_w"]

/-- The name of an opcode. -/
def mnemonic? (opcode : UInt8) : Option String := mnemonics[opcode.toNat]?

/-- The name of the mark in front of a jump target. -/
def labelMnemonic : String := "label"

/-- All names that a listing can show, labels last. -/
def allMnemonics : List String := mnemonics.toList ++ [labelMnemonic]

/-- What follows an opcode. -/
inductive Operands
  /-- Nothing; also for bytes that are no opcode. -/
  | none
  /-- A signed byte to push. -/
  | pushByte
  /-- A signed 16-bit number to push. -/
  | pushShort
  /-- A loadable constant, by an 8-bit index. -/
  | constantNarrow
  /-- A loadable constant, by a 16-bit index. -/
  | constantWide
  /-- The index of a local variable. -/
  | localIndex
  /-- The index of a local variable and a signed byte to add. -/
  | increment
  /-- A signed 16-bit distance. -/
  | branch
  /-- A signed 32-bit distance. -/
  | branchWide
  /-- Padding, a default, bounds and one distance for each value between. -/
  | tableSwitch
  /-- Padding, a default, a count and pairs of a value and a distance. -/
  | lookupSwitch
  | field
  | method
  /-- A method and two bytes without meaning. -/
  | interfaceMethod
  /-- A call site and two bytes without meaning. -/
  | dynamicCall
  /-- A class. -/
  | type
  /-- The code of a base type. -/
  | newArray
  /-- A class and a number of dimensions. -/
  | multiArray
  /-- Another opcode with operands of twice the size. -/
  | wide
  deriving DecidableEq, Repr

/-- Whether an opcode loads or stores a numbered local variable or returns to one. -/
def isLocal (opcode : UInt8) : Bool :=
  (0x15 ≤ opcode && opcode ≤ 0x19) || (0x36 ≤ opcode && opcode ≤ 0x3A) || opcode == 0xA9

/-- Whether an opcode takes a 16-bit distance. -/
def isBranch (opcode : UInt8) : Bool :=
  (0x99 ≤ opcode && opcode ≤ 0xA8) || opcode == 0xC6 || opcode == 0xC7

/-- Whether an opcode takes a class. -/
def isType (opcode : UInt8) : Bool :=
  opcode == 0xBB || opcode == 0xBD || opcode == 0xC0 || opcode == 0xC1

/-- What follows an opcode. -/
def operands (opcode : UInt8) : Operands :=
  if opcode == 0x10 then .pushByte
  else if opcode == 0x11 then .pushShort
  else if opcode == 0x12 then .constantNarrow
  else if opcode == 0x13 || opcode == 0x14 then .constantWide
  else if isLocal opcode then .localIndex
  else if opcode == 0x84 then .increment
  else if isBranch opcode then .branch
  else if opcode == 0xC8 || opcode == 0xC9 then .branchWide
  else if opcode == 0xAA then .tableSwitch
  else if opcode == 0xAB then .lookupSwitch
  else if 0xB2 ≤ opcode && opcode ≤ 0xB5 then .field
  else if 0xB6 ≤ opcode && opcode ≤ 0xB8 then .method
  else if opcode == 0xB9 then .interfaceMethod
  else if opcode == 0xBA then .dynamicCall
  else if isType opcode then .type
  else if opcode == 0xBC then .newArray
  else if opcode == 0xC5 then .multiArray
  else if opcode == 0xC4 then .wide
  else .none

end Classdesk.Opcode
