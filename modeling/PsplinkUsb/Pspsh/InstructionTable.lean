import Mathlib.Data.Nat.Notation
import PsplinkUsb.Psplink.ProgramMemory

namespace PsplinkUsb.Pspsh.InstructionTable

open PsplinkUsb.Psplink.ProgramMemory

def instrTypePsp : ℕ := 1
def instrTypeB : ℕ := 2
def instrTypeJump : ℕ := 4
def instrTypeJal : ℕ := 8

def instrTypeBranch : ℕ := instrTypeB ||| instrTypeJump ||| instrTypeJal

inductive AddrType where
  | none
  | a16
  | a26
  | reg
  deriving DecidableEq

structure Instruction where
  name : String
  opcode : Word
  mask : Word
  fmt : String
  addrtype : AddrType
  type : ℕ
  deriving DecidableEq

def Instruction.Matches (inst : Instruction) (opcode : Word) : Prop :=
  opcode &&& inst.mask = inst.opcode

instance (inst : Instruction) (opcode : Word) : Decidable (inst.Matches opcode) :=
  inferInstanceAs (Decidable (_ = _))

def Instruction.IsBranch (inst : Instruction) : Prop := inst.type &&& instrTypeBranch ≠ 0

instance : DecidablePred Instruction.IsBranch :=
  fun _ => inferInstanceAs (Decidable (_ ≠ _))

def gMacro : List Instruction :=
  [⟨"nop", 0x00000000, 0xFFFFFFFF, "", .none, 0⟩,
   ⟨"li", 0x24000000, 0xFFE00000, "%t, %i", .none, 0⟩,
   ⟨"li", 0x34000000, 0xFFE00000, "%t, %I", .none, 0⟩,
   ⟨"move", 0x00000021, 0xFC1F07FF, "%d, %s", .none, 0⟩,
   ⟨"move", 0x00000025, 0xFC1F07FF, "%d, %s", .none, 0⟩,
   ⟨"b", 0x10000000, 0xFFFF0000, "%O", .a16, instrTypeB⟩,
   ⟨"b", 0x04010000, 0xFFFF0000, "%O", .a16, instrTypeB⟩,
   ⟨"bal", 0x04110000, 0xFFFF0000, "%O", .a16, instrTypeJal⟩,
   ⟨"bnez", 0x14000000, 0xFC1F0000, "%s, %O", .a16, instrTypeB⟩,
   ⟨"bnezl", 0x54000000, 0xFC1F0000, "%s, %O", .a16, instrTypeB⟩,
   ⟨"beqz", 0x10000000, 0xFC1F0000, "%s, %O", .a16, instrTypeB⟩,
   ⟨"beqzl", 0x50000000, 0xFC1F0000, "%s, %O", .a16, instrTypeB⟩,
   ⟨"neg", 0x00000022, 0xFFE007FF, "%d, %t", .none, 0⟩,
   ⟨"negu", 0x00000023, 0xFFE007FF, "%d, %t", .none, 0⟩,
   ⟨"not", 0x00000027, 0xFC1F07FF, "%d, %s", .none, 0⟩,
   ⟨"jalr", 0x0000F809, 0xFC1FFFFF, "%J", .reg, instrTypeJal⟩]

def mipsInst : List Instruction :=
  [⟨"add", 0x00000020, 0xFC0007FF, "%d, %s, %t", .none, 0⟩,
   ⟨"addi", 0x20000000, 0xFC000000, "%t, %s, %i", .none, 0⟩,
   ⟨"addiu", 0x24000000, 0xFC000000, "%t, %s, %i", .none, 0⟩,
   ⟨"addu", 0x00000021, 0xFC0007FF, "%d, %s, %t", .none, 0⟩,
   ⟨"and", 0x00000024, 0xFC0007FF, "%d, %s, %t", .none, 0⟩,
   ⟨"andi", 0x30000000, 0xFC000000, "%t, %s, %I", .none, 0⟩,
   ⟨"beq", 0x10000000, 0xFC000000, "%s, %t, %O", .a16, instrTypeB⟩,
   ⟨"beql", 0x50000000, 0xFC000000, "%s, %t, %O", .a16, instrTypeB⟩,
   ⟨"bgez", 0x04010000, 0xFC1F0000, "%s, %O", .a16, instrTypeB⟩,
   ⟨"bgezal", 0x04110000, 0xFC1F0000, "%s, %0", .a16, instrTypeJal⟩,
   ⟨"bgezl", 0x04030000, 0xFC1F0000, "%s, %O", .a16, instrTypeB⟩,
   ⟨"bgtz", 0x1C000000, 0xFC1F0000, "%s, %O", .a16, instrTypeB⟩,
   ⟨"bgtzl", 0x5C000000, 0xFC1F0000, "%s, %O", .a16, instrTypeB⟩,
   ⟨"bitrev", 0x7C000520, 0xFFE007FF, "%d, %t", .none, instrTypePsp⟩,
   ⟨"blez", 0x18000000, 0xFC1F0000, "%s, %O", .a16, instrTypeB⟩,
   ⟨"blezl", 0x58000000, 0xFC1F0000, "%s, %O", .a16, instrTypeB⟩,
   ⟨"bltz", 0x04000000, 0xFC1F0000, "%s, %O", .a16, instrTypeB⟩,
   ⟨"bltzl", 0x04020000, 0xFC1F0000, "%s, %O", .a16, instrTypeB⟩,
   ⟨"bltzal", 0x04100000, 0xFC1F0000, "%s, %O", .a16, instrTypeJal⟩,
   ⟨"bltzall", 0x04120000, 0xFC1F0000, "%s, %O", .a16, instrTypeJal⟩,
   ⟨"bne", 0x14000000, 0xFC000000, "%s, %t, %O", .a16, instrTypeB⟩,
   ⟨"bnel", 0x54000000, 0xFC000000, "%s, %t, %O", .a16, instrTypeB⟩,
   ⟨"break", 0x0000000D, 0xFC00003F, "%c", .none, 0⟩,
   ⟨"cache", 0xBC000000, 0xFC000000, "%k, %o", .none, 0⟩,
   ⟨"cfc0", 0x40400000, 0xFFE007FF, "%t, %p", .none, instrTypePsp⟩,
   ⟨"clo", 0x00000017, 0xFC1F07FF, "%d, %s", .none, instrTypePsp⟩,
   ⟨"clz", 0x00000016, 0xFC1F07FF, "%d, %s", .none, instrTypePsp⟩,
   ⟨"ctc0", 0x40C00000, 0xFFE007FF, "%t, %p", .none, instrTypePsp⟩,
   ⟨"max", 0x0000002C, 0xFC0007FF, "%d, %s, %t", .none, instrTypePsp⟩,
   ⟨"min", 0x0000002D, 0xFC0007FF, "%d, %s, %t", .none, instrTypePsp⟩,
   ⟨"dbreak", 0x7000003F, 0xFFFFFFFF, "", .none, instrTypePsp⟩,
   ⟨"div", 0x0000001A, 0xFC00FFFF, "%s, %t", .none, 0⟩,
   ⟨"divu", 0x0000001B, 0xFC00FFFF, "%s, %t", .none, 0⟩,
   ⟨"dret", 0x7000003E, 0xFFFFFFFF, "", .none, instrTypePsp⟩,
   ⟨"eret", 0x42000018, 0xFFFFFFFF, "", .none, 0⟩,
   ⟨"ext", 0x7C000000, 0xFC00003F, "%t, %s, %a, %ne", .none, instrTypePsp⟩,
   ⟨"ins", 0x7C000004, 0xFC00003F, "%t, %s, %a, %ni", .none, instrTypePsp⟩,
   ⟨"j", 0x08000000, 0xFC000000, "%j", .a26, instrTypeJump⟩,
   ⟨"jr", 0x00000008, 0xFC1FFFFF, "%J", .reg, instrTypeJump⟩,
   ⟨"jalr", 0x00000009, 0xFC1F07FF, "%J, %d", .reg, instrTypeJal⟩,
   ⟨"jal", 0x0C000000, 0xFC000000, "%j", .a26, instrTypeJal⟩,
   ⟨"lb", 0x80000000, 0xFC000000, "%t, %o", .none, 0⟩,
   ⟨"lbu", 0x90000000, 0xFC000000, "%t, %o", .none, 0⟩,
   ⟨"lh", 0x84000000, 0xFC000000, "%t, %o", .none, 0⟩,
   ⟨"lhu", 0x94000000, 0xFC000000, "%t, %o", .none, 0⟩,
   ⟨"ll", 0xC0000000, 0xFC000000, "%t, %O", .none, 0⟩,
   ⟨"lui", 0x3C000000, 0xFFE00000, "%t, %I", .none, 0⟩,
   ⟨"lw", 0x8C000000, 0xFC000000, "%t, %o", .none, 0⟩,
   ⟨"lwl", 0x88000000, 0xFC000000, "%t, %o", .none, 0⟩,
   ⟨"lwr", 0x98000000, 0xFC000000, "%t, %o", .none, 0⟩,
   ⟨"madd", 0x0000001C, 0xFC00FFFF, "%s, %t", .none, instrTypePsp⟩,
   ⟨"maddu", 0x0000001D, 0xFC00FFFF, "%s, %t", .none, instrTypePsp⟩,
   ⟨"mfc0", 0x40000000, 0xFFE007FF, "%t, %0", .none, 0⟩,
   ⟨"mfdr", 0x7000003D, 0xFFE007FF, "%t, %r", .none, instrTypePsp⟩,
   ⟨"mfhi", 0x00000010, 0xFFFF07FF, "%d", .none, 0⟩,
   ⟨"mfic", 0x70000024, 0xFFE007FF, "%t, %p", .none, instrTypePsp⟩,
   ⟨"mflo", 0x00000012, 0xFFFF07FF, "%d", .none, 0⟩,
   ⟨"movn", 0x0000000B, 0xFC0007FF, "%d, %s, %t", .none, instrTypePsp⟩,
   ⟨"movz", 0x0000000A, 0xFC0007FF, "%d, %s, %t", .none, instrTypePsp⟩,
   ⟨"msub", 0x0000002E, 0xFC00FFFF, "%d, %t", .none, instrTypePsp⟩,
   ⟨"msubu", 0x0000002F, 0xFC00FFFF, "%d, %t", .none, instrTypePsp⟩,
   ⟨"mtc0", 0x40800000, 0xFFE007FF, "%t, %0", .none, 0⟩,
   ⟨"mtdr", 0x7080003D, 0xFFE007FF, "%t, %r", .none, instrTypePsp⟩,
   ⟨"mtic", 0x70000026, 0xFFE007FF, "%t, %p", .none, instrTypePsp⟩,
   ⟨"halt", 0x70000000, 0xFFFFFFFF, "", .none, instrTypePsp⟩,
   ⟨"mthi", 0x00000011, 0xFC1FFFFF, "%s", .none, 0⟩,
   ⟨"mtlo", 0x00000013, 0xFC1FFFFF, "%s", .none, 0⟩,
   ⟨"mult", 0x00000018, 0xFC00FFFF, "%s, %t", .none, 0⟩,
   ⟨"multu", 0x00000019, 0xFC0007FF, "%s, %t", .none, 0⟩,
   ⟨"nor", 0x00000027, 0xFC0007FF, "%d, %s, %t", .none, 0⟩,
   ⟨"or", 0x00000025, 0xFC0007FF, "%d, %s, %t", .none, 0⟩,
   ⟨"ori", 0x34000000, 0xFC000000, "%t, %s, %I", .none, 0⟩,
   ⟨"rotr", 0x00200002, 0xFFE0003F, "%d, %t, %a", .none, 0⟩,
   ⟨"rotv", 0x00000046, 0xFC0007FF, "%d, %t, %s", .none, 0⟩,
   ⟨"seb", 0x7C000420, 0xFFE007FF, "%d, %t", .none, 0⟩,
   ⟨"seh", 0x7C000620, 0xFFE007FF, "%d, %t", .none, 0⟩,
   ⟨"sb", 0xA0000000, 0xFC000000, "%t, %o", .none, 0⟩,
   ⟨"sh", 0xA4000000, 0xFC000000, "%t, %o", .none, 0⟩,
   ⟨"sllv", 0x00000004, 0xFC0007FF, "%d, %t, %s", .none, 0⟩,
   ⟨"sll", 0x00000000, 0xFFE0003F, "%d, %t, %a", .none, 0⟩,
   ⟨"slt", 0x0000002A, 0xFC0007FF, "%d, %s, %t", .none, 0⟩,
   ⟨"slti", 0x28000000, 0xFC000000, "%t, %s, %i", .none, 0⟩,
   ⟨"sltiu", 0x2C000000, 0xFC000000, "%t, %s, %i", .none, 0⟩,
   ⟨"sltu", 0x0000002B, 0xFC0007FF, "%d, %s, %t", .none, 0⟩,
   ⟨"sra", 0x00000003, 0xFFE0003F, "%d, %t, %a", .none, 0⟩,
   ⟨"srav", 0x00000007, 0xFC0007FF, "%d, %t, %s", .none, 0⟩,
   ⟨"srlv", 0x00000006, 0xFC0007FF, "%d, %t, %s", .none, 0⟩,
   ⟨"srl", 0x00000002, 0xFFE0003F, "%d, %t, %a", .none, 0⟩,
   ⟨"sw", 0xAC000000, 0xFC000000, "%t, %o", .none, 0⟩,
   ⟨"swl", 0xA8000000, 0xFC000000, "%t, %o", .none, 0⟩,
   ⟨"swr", 0xB8000000, 0xFC000000, "%t, %o", .none, 0⟩,
   ⟨"sub", 0x00000022, 0xFC0007FF, "%d, %s, %t", .none, 0⟩,
   ⟨"subu", 0x00000023, 0xFC0007FF, "%d, %s, %t", .none, 0⟩,
   ⟨"sync", 0x0000000F, 0xFFFFFFFF, "", .none, 0⟩,
   ⟨"syscall", 0x0000000C, 0xFC00003F, "%C", .none, 0⟩,
   ⟨"xor", 0x00000026, 0xFC0007FF, "%d, %s, %t", .none, 0⟩,
   ⟨"xori", 0x38000000, 0xFC000000, "%t, %s, %I", .none, 0⟩,
   ⟨"wsbh", 0x7C0000A0, 0xFFE007FF, "%d, %t", .none, instrTypePsp⟩,
   ⟨"wsbw", 0x7C0000E0, 0xFFE007FF, "%d, %t", .none, instrTypePsp⟩]

def fpuInst : List Instruction :=
  [⟨"abs.s", 0x46000005, 0xFFFF003F, "%D, %S", .none, 0⟩,
   ⟨"add.s", 0x46000000, 0xFFE0003F, "%D, %S, %T", .none, 0⟩,
   ⟨"bc1f", 0x45000000, 0xFFFF0000, "%O", .a16, instrTypeB⟩,
   ⟨"bc1fl", 0x45020000, 0xFFFF0000, "%O", .a16, instrTypeB⟩,
   ⟨"bc1t", 0x45010000, 0xFFFF0000, "%O", .a16, instrTypeB⟩,
   ⟨"bc1tl", 0x45030000, 0xFFFF0000, "%O", .a16, instrTypeB⟩,
   ⟨"c.f.s", 0x46000030, 0xFFE007FF, "%S, %T", .none, 0⟩,
   ⟨"c.un.s", 0x46000031, 0xFFE007FF, "%S, %T", .none, 0⟩,
   ⟨"c.eq.s", 0x46000032, 0xFFE007FF, "%S, %T", .none, 0⟩,
   ⟨"c.ueq.s", 0x46000033, 0xFFE007FF, "%S, %T", .none, 0⟩,
   ⟨"c.olt.s", 0x46000034, 0xFFE007FF, "%S, %T", .none, 0⟩,
   ⟨"c.ult.s", 0x46000035, 0xFFE007FF, "%S, %T", .none, 0⟩,
   ⟨"c.ole.s", 0x46000036, 0xFFE007FF, "%S, %T", .none, 0⟩,
   ⟨"c.ule.s", 0x46000037, 0xFFE007FF, "%S, %T", .none, 0⟩,
   ⟨"c.sf.s", 0x46000038, 0xFFE007FF, "%S, %T", .none, 0⟩,
   ⟨"c.ngle.s", 0x46000039, 0xFFE007FF, "%S, %T", .none, 0⟩,
   ⟨"c.seq.s", 0x4600003A, 0xFFE007FF, "%S, %T", .none, 0⟩,
   ⟨"c.ngl.s", 0x4600003B, 0xFFE007FF, "%S, %T", .none, 0⟩,
   ⟨"c.lt.s", 0x4600003C, 0xFFE007FF, "%S, %T", .none, 0⟩,
   ⟨"c.nge.s", 0x4600003D, 0xFFE007FF, "%S, %T", .none, 0⟩,
   ⟨"c.le.s", 0x4600003E, 0xFFE007FF, "%S, %T", .none, 0⟩,
   ⟨"c.ngt.s", 0x4600003F, 0xFFE007FF, "%S, %T", .none, 0⟩,
   ⟨"ceil.w.s", 0x4600000E, 0xFFFF003F, "%D, %S", .none, 0⟩,
   ⟨"cfc1", 0x44400000, 0xFFE007FF, "%t, %p", .none, 0⟩,
   ⟨"ctc1", 0x44C00000, 0xFFE007FF, "%t, %p", .none, 0⟩,
   ⟨"cvt.s.w", 0x46800020, 0xFFFF003F, "%D, %S", .none, 0⟩,
   ⟨"cvt.w.s", 0x46000024, 0xFFFF003F, "%D, %S", .none, 0⟩,
   ⟨"div.s", 0x46000003, 0xFFE0003F, "%D, %S, %T", .none, 0⟩,
   ⟨"floor.w.s", 0x4600000F, 0xFFFF003F, "%D, %S", .none, 0⟩,
   ⟨"lwc1", 0xC4000000, 0xFC000000, "%T, %o", .none, 0⟩,
   ⟨"mfc1", 0x44000000, 0xFFE007FF, "%t, %1", .none, 0⟩,
   ⟨"mov.s", 0x46000006, 0xFFFF003F, "%D, %S", .none, 0⟩,
   ⟨"mtc1", 0x44800000, 0xFFE007FF, "%t, %1", .none, 0⟩,
   ⟨"mul.s", 0x46000002, 0xFFE0003F, "%D, %S, %T", .none, 0⟩,
   ⟨"neg.s", 0x46000007, 0xFFFF003F, "%D, %S", .none, 0⟩,
   ⟨"round.w.s", 0x4600000C, 0xFFFF003F, "%D, %S", .none, 0⟩,
   ⟨"sqrt.s", 0x46000004, 0xFFFF003F, "%D, %S", .none, 0⟩,
   ⟨"sub.s", 0x46000001, 0xFFE0003F, "%D, %S, %T", .none, 0⟩,
   ⟨"swc1", 0xE4000000, 0xFC000000, "%T, %o", .none, 0⟩,
   ⟨"trunc.w.s", 0x4600000D, 0xFFFF003F, "%D, %S", .none, 0⟩]

def vpuInst : List Instruction :=
  [⟨"bvf", 0x49000000, 0xFFE30000, "%Zc, %O", .a16, (instrTypePsp ||| instrTypeB)⟩,
   ⟨"bvfl", 0x49020000, 0xFFE30000, "%Zc, %O", .a16, (instrTypePsp ||| instrTypeB)⟩,
   ⟨"bvt", 0x49010000, 0xFFE30000, "%Zc, %O", .a16, (instrTypePsp ||| instrTypeB)⟩,
   ⟨"bvtl", 0x49030000, 0xFFE30000, "%Zc, %O", .a16, (instrTypePsp ||| instrTypeB)⟩,
   ⟨"lv.q", 0xD8000000, 0xFC000002, "%Xq, %Y", .none, instrTypePsp⟩,
   ⟨"lv.s", 0xC8000000, 0xFC000000, "%Xs, %Y", .none, instrTypePsp⟩,
   ⟨"lvl.q", 0xD4000000, 0xFC000002, "%Xq, %Y", .none, instrTypePsp⟩,
   ⟨"lvr.q", 0xD4000002, 0xFC000002, "%Xq, %Y", .none, instrTypePsp⟩,
   ⟨"mfv", 0x48600000, 0xFFE0FF80, "%t, %zs", .none, instrTypePsp⟩,
   ⟨"mfvc", 0x48600000, 0xFFE0FF00, "%t, %2d", .none, instrTypePsp⟩,
   ⟨"mtv", 0x48E00000, 0xFFE0FF80, "%t, %zs", .none, instrTypePsp⟩,
   ⟨"mtvc", 0x48E00000, 0xFFE0FF00, "%t, %2d", .none, instrTypePsp⟩,
   ⟨"sv.q", 0xF8000000, 0xFC000002, "%Xq, %Y", .none, instrTypePsp⟩,
   ⟨"sv.s", 0xE8000000, 0xFC000000, "%Xs, %Y", .none, instrTypePsp⟩,
   ⟨"svl.q", 0xF4000000, 0xFC000002, "%Xq, %Y", .none, instrTypePsp⟩,
   ⟨"svr.q", 0xF4000002, 0xFC000002, "%Xq, %Y", .none, instrTypePsp⟩,
   ⟨"vabs.p", 0xD0010080, 0xFFFF8080, "%zp, %yp", .none, instrTypePsp⟩,
   ⟨"vabs.q", 0xD0018080, 0xFFFF8080, "%zq, %yq", .none, instrTypePsp⟩,
   ⟨"vabs.s", 0xD0010000, 0xFFFF8080, "%zs, %ys", .none, instrTypePsp⟩,
   ⟨"vabs.t", 0xD0018000, 0xFFFF8080, "%zt, %yt", .none, instrTypePsp⟩,
   ⟨"vadd.p", 0x60000080, 0xFF808080, "%zp, %yp, %xp", .none, instrTypePsp⟩,
   ⟨"vadd.q", 0x60008080, 0xFF808080, "%zq, %yq, %xq", .none, instrTypePsp⟩,
   ⟨"vadd.s", 0x60000000, 0xFF808080, "%zs, %ys, %xs", .none, instrTypePsp⟩,
   ⟨"vadd.t", 0x60008000, 0xFF808080, "%zt, %yt, %xt", .none, instrTypePsp⟩,
   ⟨"vasin.p", 0xD0170080, 0xFFFF8080, "%zp, %yp", .none, instrTypePsp⟩,
   ⟨"vasin.q", 0xD0178080, 0xFFFF8080, "%zq, %yq", .none, instrTypePsp⟩,
   ⟨"vasin.s", 0xD0170000, 0xFFFF8080, "%zs, %ys", .none, instrTypePsp⟩,
   ⟨"vasin.t", 0xD0178000, 0xFFFF8080, "%zt, %yt", .none, instrTypePsp⟩,
   ⟨"vavg.p", 0xD0470080, 0xFFFF8080, "%zp, %yp", .none, instrTypePsp⟩,
   ⟨"vavg.q", 0xD0478080, 0xFFFF8080, "%zq, %yq", .none, instrTypePsp⟩,
   ⟨"vavg.t", 0xD0478000, 0xFFFF8080, "%zt, %yt", .none, instrTypePsp⟩,
   ⟨"vbfy1.p", 0xD0420080, 0xFFFF8080, "%zp, %yp", .none, instrTypePsp⟩,
   ⟨"vbfy1.q", 0xD0428080, 0xFFFF8080, "%zq, %yq", .none, instrTypePsp⟩,
   ⟨"vbfy2.q", 0xD0438080, 0xFFFF8080, "%zq, %yq", .none, instrTypePsp⟩,
   ⟨"vcmovf.p", 0xD2A80080, 0xFFF88080, "%zp, %yp, %v3", .none, instrTypePsp⟩,
   ⟨"vcmovf.q", 0xD2A88080, 0xFFF88080, "%zq, %yq, %v3", .none, instrTypePsp⟩,
   ⟨"vcmovf.s", 0xD2A80000, 0xFFF88080, "%zs, %ys, %v3", .none, instrTypePsp⟩,
   ⟨"vcmovf.t", 0xD2A88000, 0xFFF88080, "%zt, %yt, %v3", .none, instrTypePsp⟩,
   ⟨"vcmovt.p", 0xD2A00080, 0xFFF88080, "%zp, %yp, %v3", .none, instrTypePsp⟩,
   ⟨"vcmovt.q", 0xD2A08080, 0xFFF88080, "%zq, %yq, %v3", .none, instrTypePsp⟩,
   ⟨"vcmovt.s", 0xD2A00000, 0xFFF88080, "%zs, %ys, %v3", .none, instrTypePsp⟩,
   ⟨"vcmovt.t", 0xD2A08000, 0xFFF88080, "%zt, %yt, %v3", .none, instrTypePsp⟩,
   ⟨"vcmp.p", 0x6C000080, 0xFF8080F0, "%Zn, %yp, %xp", .none, instrTypePsp⟩,
   ⟨"vcmp.p", 0x6C000080, 0xFFFF80F0, "%Zn, %yp", .none, instrTypePsp⟩,
   ⟨"vcmp.p", 0x6C000080, 0xFFFFFFF0, "%Zn", .none, instrTypePsp⟩,
   ⟨"vcmp.q", 0x6C008080, 0xFF8080F0, "%Zn, %yq, %xq", .none, instrTypePsp⟩,
   ⟨"vcmp.q", 0x6C008080, 0xFFFF80F0, "%Zn, %yq", .none, instrTypePsp⟩,
   ⟨"vcmp.q", 0x6C008080, 0xFFFFFFF0, "%Zn", .none, instrTypePsp⟩,
   ⟨"vcmp.s", 0x6C000000, 0xFF8080F0, "%Zn, %ys, %xs", .none, instrTypePsp⟩,
   ⟨"vcmp.s", 0x6C000000, 0xFFFF80F0, "%Zn, %ys", .none, instrTypePsp⟩,
   ⟨"vcmp.s", 0x6C000000, 0xFFFFFFF0, "%Zn", .none, instrTypePsp⟩,
   ⟨"vcmp.t", 0x6C008000, 0xFF8080F0, "%Zn, %yt, %xt", .none, instrTypePsp⟩,
   ⟨"vcmp.t", 0x6C008000, 0xFFFF80F0, "%Zn, %yt", .none, instrTypePsp⟩,
   ⟨"vcmp.t", 0x6C008000, 0xFFFFFFF0, "%Zn", .none, instrTypePsp⟩,
   ⟨"vcos.p", 0xD0130080, 0xFFFF8080, "%zp, %yp", .none, instrTypePsp⟩,
   ⟨"vcos.q", 0xD0138080, 0xFFFF8080, "%zq, %yq", .none, instrTypePsp⟩,
   ⟨"vcos.s", 0xD0130000, 0xFFFF8080, "%zs, %ys", .none, instrTypePsp⟩,
   ⟨"vcos.t", 0xD0138000, 0xFFFF8080, "%zt, %yt", .none, instrTypePsp⟩,
   ⟨"vcrs.t", 0x66808000, 0xFF808080, "%zt, %yt, %xt", .none, instrTypePsp⟩,
   ⟨"vcrsp.t", 0xF2808000, 0xFF808080, "%zt, %yt, %xt", .none, instrTypePsp⟩,
   ⟨"vcst.p", 0xD0600080, 0xFFE0FF80, "%zp, %vk", .none, instrTypePsp⟩,
   ⟨"vcst.q", 0xD0608080, 0xFFE0FF80, "%zq, %vk", .none, instrTypePsp⟩,
   ⟨"vcst.s", 0xD0600000, 0xFFE0FF80, "%zs, %vk", .none, instrTypePsp⟩,
   ⟨"vcst.t", 0xD0608000, 0xFFE0FF80, "%zt, %vk", .none, instrTypePsp⟩,
   ⟨"vdet.p", 0x67000080, 0xFF808080, "%zs, %yp, %xp", .none, instrTypePsp⟩,
   ⟨"vdiv.p", 0x63800080, 0xFF808080, "%zp, %yp, %xp", .none, instrTypePsp⟩,
   ⟨"vdiv.q", 0x63808080, 0xFF808080, "%zq, %yq, %xq", .none, instrTypePsp⟩,
   ⟨"vdiv.s", 0x63800000, 0xFF808080, "%zs, %ys, %xs", .none, instrTypePsp⟩,
   ⟨"vdiv.t", 0x63808000, 0xFF808080, "%zt, %yt, %xt", .none, instrTypePsp⟩,
   ⟨"vdot.p", 0x64800080, 0xFF808080, "%zs, %yp, %xp", .none, instrTypePsp⟩,
   ⟨"vdot.q", 0x64808080, 0xFF808080, "%zs, %yq, %xq", .none, instrTypePsp⟩,
   ⟨"vdot.t", 0x64808000, 0xFF808080, "%zs, %yt, %xt", .none, instrTypePsp⟩,
   ⟨"vexp2.p", 0xD0140080, 0xFFFF8080, "%zp, %yp", .none, instrTypePsp⟩,
   ⟨"vexp2.q", 0xD0148080, 0xFFFF8080, "%zq, %yq", .none, instrTypePsp⟩,
   ⟨"vexp2.s", 0xD0140000, 0xFFFF8080, "%zs, %ys", .none, instrTypePsp⟩,
   ⟨"vexp2.t", 0xD0148000, 0xFFFF8080, "%zt, %yt", .none, instrTypePsp⟩,
   ⟨"vf2h.p", 0xD0320080, 0xFFFF8080, "%zs, %yp", .none, instrTypePsp⟩,
   ⟨"vf2h.q", 0xD0328080, 0xFFFF8080, "%zp, %yq", .none, instrTypePsp⟩,
   ⟨"vf2id.p", 0xD2600080, 0xFFE08080, "%zp, %yp, %v5", .none, instrTypePsp⟩,
   ⟨"vf2id.q", 0xD2608080, 0xFFE08080, "%zq, %yq, %v5", .none, instrTypePsp⟩,
   ⟨"vf2id.s", 0xD2600000, 0xFFE08080, "%zs, %ys, %v5", .none, instrTypePsp⟩,
   ⟨"vf2id.t", 0xD2608000, 0xFFE08080, "%zt, %yt, %v5", .none, instrTypePsp⟩,
   ⟨"vf2in.p", 0xD2000080, 0xFFE08080, "%zp, %yp, %v5", .none, instrTypePsp⟩,
   ⟨"vf2in.q", 0xD2008080, 0xFFE08080, "%zq, %yq, %v5", .none, instrTypePsp⟩,
   ⟨"vf2in.s", 0xD2000000, 0xFFE08080, "%zs, %ys, %v5", .none, instrTypePsp⟩,
   ⟨"vf2in.t", 0xD2008000, 0xFFE08080, "%zt, %yt, %v5", .none, instrTypePsp⟩,
   ⟨"vf2iu.p", 0xD2400080, 0xFFE08080, "%zp, %yp, %v5", .none, instrTypePsp⟩,
   ⟨"vf2iu.q", 0xD2408080, 0xFFE08080, "%zq, %yq, %v5", .none, instrTypePsp⟩,
   ⟨"vf2iu.s", 0xD2400000, 0xFFE08080, "%zs, %ys, %v5", .none, instrTypePsp⟩,
   ⟨"vf2iu.t", 0xD2408000, 0xFFE08080, "%zt, %yt, %v5", .none, instrTypePsp⟩,
   ⟨"vf2iz.p", 0xD2200080, 0xFFE08080, "%zp, %yp, %v5", .none, instrTypePsp⟩,
   ⟨"vf2iz.q", 0xD2208080, 0xFFE08080, "%zq, %yq, %v5", .none, instrTypePsp⟩,
   ⟨"vf2iz.s", 0xD2200000, 0xFFE08080, "%zs, %ys, %v5", .none, instrTypePsp⟩,
   ⟨"vf2iz.t", 0xD2208000, 0xFFE08080, "%zt, %yt, %v5", .none, instrTypePsp⟩,
   ⟨"vfad.p", 0xD0460080, 0xFFFF8080, "%zp, %yp", .none, instrTypePsp⟩,
   ⟨"vfad.q", 0xD0468080, 0xFFFF8080, "%zq, %yq", .none, instrTypePsp⟩,
   ⟨"vfad.t", 0xD0468000, 0xFFFF8080, "%zt, %yt", .none, instrTypePsp⟩,
   ⟨"vfim.s", 0xDF800000, 0xFF800000, "%xs, %vh", .none, instrTypePsp⟩,
   ⟨"vflush", 0xFFFF040D, 0xFFFFFFFF, "", .none, instrTypePsp⟩,
   ⟨"vh2f.p", 0xD0330080, 0xFFFF8080, "%zq, %yp", .none, instrTypePsp⟩,
   ⟨"vh2f.s", 0xD0330000, 0xFFFF8080, "%zp, %ys", .none, instrTypePsp⟩,
   ⟨"vhdp.p", 0x66000080, 0xFF808080, "%zs, %yp, %xp", .none, instrTypePsp⟩,
   ⟨"vhdp.q", 0x66008080, 0xFF808080, "%zs, %yq, %xq", .none, instrTypePsp⟩,
   ⟨"vhdp.t", 0x66008000, 0xFF808080, "%zs, %yt, %xt", .none, instrTypePsp⟩,
   ⟨"vhtfm2.p", 0xF0800000, 0xFF808080, "%zp, %ym, %xp", .none, instrTypePsp⟩,
   ⟨"vhtfm3.t", 0xF1000080, 0xFF808080, "%zt, %yn, %xt", .none, instrTypePsp⟩,
   ⟨"vhtfm4.q", 0xF1808000, 0xFF808080, "%zq, %yo, %xq", .none, instrTypePsp⟩,
   ⟨"vi2c.q", 0xD03D8080, 0xFFFF8080, "%zs, %yq", .none, instrTypePsp⟩,
   ⟨"vi2f.p", 0xD2800080, 0xFFE08080, "%zp, %yp, %v5", .none, instrTypePsp⟩,
   ⟨"vi2f.q", 0xD2808080, 0xFFE08080, "%zq, %yq, %v5", .none, instrTypePsp⟩,
   ⟨"vi2f.s", 0xD2800000, 0xFFE08080, "%zs, %ys, %v5", .none, instrTypePsp⟩,
   ⟨"vi2f.t", 0xD2808000, 0xFFE08080, "%zt, %yt, %v5", .none, instrTypePsp⟩,
   ⟨"vi2s.p", 0xD03F0080, 0xFFFF8080, "%zs, %yp", .none, instrTypePsp⟩,
   ⟨"vi2s.q", 0xD03F8080, 0xFFFF8080, "%zp, %yq", .none, instrTypePsp⟩,
   ⟨"vi2uc.q", 0xD03C8080, 0xFFFF8080, "%zq, %yq", .none, instrTypePsp⟩,
   ⟨"vi2us.p", 0xD03E0080, 0xFFFF8080, "%zq, %yq", .none, instrTypePsp⟩,
   ⟨"vi2us.q", 0xD03E8080, 0xFFFF8080, "%zq, %yq", .none, instrTypePsp⟩,
   ⟨"vidt.p", 0xD0030080, 0xFFFFFF80, "%zp", .none, instrTypePsp⟩,
   ⟨"vidt.q", 0xD0038080, 0xFFFFFF80, "%zq", .none, instrTypePsp⟩,
   ⟨"viim.s", 0xDF000000, 0xFF800000, "%xs, %vi", .none, instrTypePsp⟩,
   ⟨"vlgb.s", 0xD0370000, 0xFFFF8080, "%zs, %ys", .none, instrTypePsp⟩,
   ⟨"vlog2.p", 0xD0150080, 0xFFFF8080, "%zp, %yp", .none, instrTypePsp⟩,
   ⟨"vlog2.q", 0xD0158080, 0xFFFF8080, "%zq, %yq", .none, instrTypePsp⟩,
   ⟨"vlog2.s", 0xD0150000, 0xFFFF8080, "%zs, %ys", .none, instrTypePsp⟩,
   ⟨"vlog2.t", 0xD0158000, 0xFFFF8080, "%zt, %yt", .none, instrTypePsp⟩,
   ⟨"vmax.p", 0x6D800080, 0xFF808080, "%zp, %yp, %xp", .none, instrTypePsp⟩,
   ⟨"vmax.q", 0x6D808080, 0xFF808080, "%zq, %yq, %xq", .none, instrTypePsp⟩,
   ⟨"vmax.s", 0x6D800000, 0xFF808080, "%zs, %ys, %xs", .none, instrTypePsp⟩,
   ⟨"vmax.t", 0x6D808000, 0xFF808080, "%zt, %yt, %xt", .none, instrTypePsp⟩,
   ⟨"vmfvc", 0xD0500000, 0xFFFF0080, "%zs, %2s", .none, instrTypePsp⟩,
   ⟨"vmidt.p", 0xF3830080, 0xFFFFFF80, "%zm", .none, instrTypePsp⟩,
   ⟨"vmidt.q", 0xF3838080, 0xFFFFFF80, "%zo", .none, instrTypePsp⟩,
   ⟨"vmidt.t", 0xF3838000, 0xFFFFFF80, "%zn", .none, instrTypePsp⟩,
   ⟨"vmin.p", 0x6D000080, 0xFF808080, "%zp, %yp, %xp", .none, instrTypePsp⟩,
   ⟨"vmin.q", 0x6D008080, 0xFF808080, "%zq, %yq, %xq", .none, instrTypePsp⟩,
   ⟨"vmin.s", 0x6D000000, 0xFF808080, "%zs, %ys, %xs", .none, instrTypePsp⟩,
   ⟨"vmin.t", 0x6D008000, 0xFF808080, "%zt, %yt, %xt", .none, instrTypePsp⟩,
   ⟨"vmmov.p", 0xF3800080, 0xFFFF8080, "%zm, %ym", .none, instrTypePsp⟩,
   ⟨"vmmov.q", 0xF3808080, 0xFFFF8080, "%zo, %yo", .none, instrTypePsp⟩,
   ⟨"vmmov.t", 0xF3808000, 0xFFFF8080, "%zn, %yn", .none, instrTypePsp⟩,
   ⟨"vmmul.p", 0xF0000080, 0xFF808080, "%?%zm, %ym, %xm", .none, instrTypePsp⟩,
   ⟨"vmmul.q", 0xF0008080, 0xFF808080, "%?%zo, %yo, %xo", .none, instrTypePsp⟩,
   ⟨"vmmul.t", 0xF0008000, 0xFF808080, "%?%zn, %yn, %xn", .none, instrTypePsp⟩,
   ⟨"vmone.p", 0xF3870080, 0xFFFFFF80, "%zp", .none, instrTypePsp⟩,
   ⟨"vmone.q", 0xF3878080, 0xFFFFFF80, "%zq", .none, instrTypePsp⟩,
   ⟨"vmone.t", 0xF3878000, 0xFFFFFF80, "%zt", .none, instrTypePsp⟩,
   ⟨"vmov.p", 0xD0000080, 0xFFFF8080, "%zp, %yp", .none, instrTypePsp⟩,
   ⟨"vmov.q", 0xD0008080, 0xFFFF8080, "%zq, %yq", .none, instrTypePsp⟩,
   ⟨"vmov.s", 0xD0000000, 0xFFFF8080, "%zs, %ys", .none, instrTypePsp⟩,
   ⟨"vmov.t", 0xD0008000, 0xFFFF8080, "%zt, %yt", .none, instrTypePsp⟩,
   ⟨"vmscl.p", 0xF2000080, 0xFF808080, "%zm, %ym, %xs", .none, instrTypePsp⟩,
   ⟨"vmscl.q", 0xF2008080, 0xFF808080, "%zo, %yo, %xs", .none, instrTypePsp⟩,
   ⟨"vmscl.t", 0xF2008000, 0xFF808080, "%zn, %yn, %xs", .none, instrTypePsp⟩,
   ⟨"vmtvc", 0xD0510000, 0xFFFF8000, "%2d, %ys", .none, instrTypePsp⟩,
   ⟨"vmul.p", 0x64000080, 0xFF808080, "%zp, %yp, %xp", .none, instrTypePsp⟩,
   ⟨"vmul.q", 0x64008080, 0xFF808080, "%zq, %yq, %xq", .none, instrTypePsp⟩,
   ⟨"vmul.s", 0x64000000, 0xFF808080, "%zs, %ys, %xs", .none, instrTypePsp⟩,
   ⟨"vmul.t", 0x64008000, 0xFF808080, "%zt, %yt, %xt", .none, instrTypePsp⟩,
   ⟨"vmzero.p", 0xF3860080, 0xFFFFFF80, "%zm", .none, instrTypePsp⟩,
   ⟨"vmzero.q", 0xF3868080, 0xFFFFFF80, "%zo", .none, instrTypePsp⟩,
   ⟨"vmzero.t", 0xF3868000, 0xFFFFFF80, "%zn", .none, instrTypePsp⟩,
   ⟨"vneg.p", 0xD0020080, 0xFFFF8080, "%zp, %yp", .none, instrTypePsp⟩,
   ⟨"vneg.q", 0xD0028080, 0xFFFF8080, "%zq, %yq", .none, instrTypePsp⟩,
   ⟨"vneg.s", 0xD0020000, 0xFFFF8080, "%zs, %ys", .none, instrTypePsp⟩,
   ⟨"vneg.t", 0xD0028000, 0xFFFF8080, "%zt, %yt", .none, instrTypePsp⟩,
   ⟨"vnop", 0xFFFF0000, 0xFFFFFFFF, "", .none, instrTypePsp⟩,
   ⟨"vnrcp.p", 0xD0180080, 0xFFFF8080, "%zp, %yp", .none, instrTypePsp⟩,
   ⟨"vnrcp.q", 0xD0188080, 0xFFFF8080, "%zq, %yq", .none, instrTypePsp⟩,
   ⟨"vnrcp.s", 0xD0180000, 0xFFFF8080, "%zs, %ys", .none, instrTypePsp⟩,
   ⟨"vnrcp.t", 0xD0188000, 0xFFFF8080, "%zt, %yt", .none, instrTypePsp⟩,
   ⟨"vnsin.p", 0xD01A0080, 0xFFFF8080, "%zp, %yp", .none, instrTypePsp⟩,
   ⟨"vnsin.q", 0xD01A8080, 0xFFFF8080, "%zq, %yq", .none, instrTypePsp⟩,
   ⟨"vnsin.s", 0xD01A0000, 0xFFFF8080, "%zs, %ys", .none, instrTypePsp⟩,
   ⟨"vnsin.t", 0xD01A8000, 0xFFFF8080, "%zt, %yt", .none, instrTypePsp⟩,
   ⟨"vocp.p", 0xD0440080, 0xFFFF8080, "%zp, %yp", .none, instrTypePsp⟩,
   ⟨"vocp.q", 0xD0448080, 0xFFFF8080, "%zq, %yq", .none, instrTypePsp⟩,
   ⟨"vocp.s", 0xD0440000, 0xFFFF8080, "%zs, %ys", .none, instrTypePsp⟩,
   ⟨"vocp.t", 0xD0448000, 0xFFFF8080, "%zt, %yt", .none, instrTypePsp⟩,
   ⟨"vone.p", 0xD0070080, 0xFFFFFF80, "%zp", .none, instrTypePsp⟩,
   ⟨"vone.q", 0xD0078080, 0xFFFFFF80, "%zq", .none, instrTypePsp⟩,
   ⟨"vone.s", 0xD0070000, 0xFFFFFF80, "%zs", .none, instrTypePsp⟩,
   ⟨"vone.t", 0xD0078000, 0xFFFFFF80, "%zt", .none, instrTypePsp⟩,
   ⟨"vpfxd", 0xDE000000, 0xFF000000, "[%vp4, %vp5, %vp6, %vp7]", .none, instrTypePsp⟩,
   ⟨"vpfxs", 0xDC000000, 0xFF000000, "[%vp0, %vp1, %vp2, %vp3]", .none, instrTypePsp⟩,
   ⟨"vpfxt", 0xDD000000, 0xFF000000, "[%vp0, %vp1, %vp2, %vp3]", .none, instrTypePsp⟩,
   ⟨"vqmul.q", 0xF2808080, 0xFF808080, "%zq, %yq, %xq", .none, instrTypePsp⟩,
   ⟨"vrcp.p", 0xD0100080, 0xFFFF8080, "%zp, %yp", .none, instrTypePsp⟩,
   ⟨"vrcp.q", 0xD0108080, 0xFFFF8080, "%zq, %yq", .none, instrTypePsp⟩,
   ⟨"vrcp.s", 0xD0100000, 0xFFFF8080, "%zs, %ys", .none, instrTypePsp⟩,
   ⟨"vrcp.t", 0xD0108000, 0xFFFF8080, "%zt, %yt", .none, instrTypePsp⟩,
   ⟨"vrexp2.p", 0xD01C0080, 0xFFFF8080, "%zp, %yp", .none, instrTypePsp⟩,
   ⟨"vrexp2.q", 0xD01C8080, 0xFFFF8080, "%zq, %yq", .none, instrTypePsp⟩,
   ⟨"vrexp2.s", 0xD01C0000, 0xFFFF8080, "%zs, %ys", .none, instrTypePsp⟩,
   ⟨"vrexp2.t", 0xD01C8000, 0xFFFF8080, "%zt, %yt", .none, instrTypePsp⟩,
   ⟨"vrndf1.p", 0xD0220080, 0xFFFFFF80, "%zp", .none, instrTypePsp⟩,
   ⟨"vrndf1.q", 0xD0228080, 0xFFFFFF80, "%zq", .none, instrTypePsp⟩,
   ⟨"vrndf1.s", 0xD0220000, 0xFFFFFF80, "%zs", .none, instrTypePsp⟩,
   ⟨"vrndf1.t", 0xD0228000, 0xFFFFFF80, "%zt", .none, instrTypePsp⟩,
   ⟨"vrndf2.p", 0xD0230080, 0xFFFFFF80, "%zp", .none, instrTypePsp⟩,
   ⟨"vrndf2.q", 0xD0238080, 0xFFFFFF80, "%zq", .none, instrTypePsp⟩,
   ⟨"vrndf2.s", 0xD0230000, 0xFFFFFF80, "%zs", .none, instrTypePsp⟩,
   ⟨"vrndf2.t", 0xD0238000, 0xFFFFFF80, "%zt", .none, instrTypePsp⟩,
   ⟨"vrndi.p", 0xD0210080, 0xFFFFFF80, "%zp", .none, instrTypePsp⟩,
   ⟨"vrndi.q", 0xD0218080, 0xFFFFFF80, "%zq", .none, instrTypePsp⟩,
   ⟨"vrndi.s", 0xD0210000, 0xFFFFFF80, "%zs", .none, instrTypePsp⟩,
   ⟨"vrndi.t", 0xD0218000, 0xFFFFFF80, "%zt", .none, instrTypePsp⟩,
   ⟨"vrnds.s", 0xD0200000, 0xFFFF80FF, "%ys", .none, instrTypePsp⟩,
   ⟨"vrot.p", 0xF3A00080, 0xFFE08080, "%zp, %ys, %vr", .none, instrTypePsp⟩,
   ⟨"vrot.q", 0xF3A08080, 0xFFE08080, "%zq, %ys, %vr", .none, instrTypePsp⟩,
   ⟨"vrot.t", 0xF3A08000, 0xFFE08080, "%zt, %ys, %vr", .none, instrTypePsp⟩,
   ⟨"vrsq.p", 0xD0110080, 0xFFFF8080, "%zp, %yp", .none, instrTypePsp⟩,
   ⟨"vrsq.q", 0xD0118080, 0xFFFF8080, "%zq, %yq", .none, instrTypePsp⟩,
   ⟨"vrsq.s", 0xD0110000, 0xFFFF8080, "%zs, %ys", .none, instrTypePsp⟩,
   ⟨"vrsq.t", 0xD0118000, 0xFFFF8080, "%zt, %yt", .none, instrTypePsp⟩,
   ⟨"vs2i.p", 0xD03B0080, 0xFFFF8080, "%zq, %yp", .none, instrTypePsp⟩,
   ⟨"vs2i.s", 0xD03B0000, 0xFFFF8080, "%zp, %ys", .none, instrTypePsp⟩,
   ⟨"vsat0.p", 0xD0040080, 0xFFFF8080, "%zp, %yp", .none, instrTypePsp⟩,
   ⟨"vsat0.q", 0xD0048080, 0xFFFF8080, "%zq, %yq", .none, instrTypePsp⟩,
   ⟨"vsat0.s", 0xD0040000, 0xFFFF8080, "%zs, %ys", .none, instrTypePsp⟩,
   ⟨"vsat0.t", 0xD0048000, 0xFFFF8080, "%zt, %yt", .none, instrTypePsp⟩,
   ⟨"vsat1.p", 0xD0050080, 0xFFFF8080, "%zp, %yp", .none, instrTypePsp⟩,
   ⟨"vsat1.q", 0xD0058080, 0xFFFF8080, "%zq, %yq", .none, instrTypePsp⟩,
   ⟨"vsat1.s", 0xD0050000, 0xFFFF8080, "%zs, %ys", .none, instrTypePsp⟩,
   ⟨"vsat1.t", 0xD0058000, 0xFFFF8080, "%zt, %yt", .none, instrTypePsp⟩,
   ⟨"vsbn.s", 0x61000000, 0xFF808080, "%zs, %ys, %xs", .none, instrTypePsp⟩,
   ⟨"vsbz.s", 0xD0360000, 0xFFFF8080, "%zs, %ys", .none, instrTypePsp⟩,
   ⟨"vscl.p", 0x65000080, 0xFF808080, "%zp, %yp, %xs", .none, instrTypePsp⟩,
   ⟨"vscl.q", 0x65008080, 0xFF808080, "%zq, %yq, %xs", .none, instrTypePsp⟩,
   ⟨"vscl.t", 0x65008000, 0xFF808080, "%zt, %yt, %xs", .none, instrTypePsp⟩,
   ⟨"vscmp.p", 0x6E800080, 0xFF808080, "%zp, %yp, %xp", .none, instrTypePsp⟩,
   ⟨"vscmp.q", 0x6E808080, 0xFF808080, "%zq, %yq, %xq", .none, instrTypePsp⟩,
   ⟨"vscmp.s", 0x6E800000, 0xFF808080, "%zs, %ys, %xs", .none, instrTypePsp⟩,
   ⟨"vscmp.t", 0x6E808000, 0xFF808080, "%zt, %yt, %xt", .none, instrTypePsp⟩,
   ⟨"vsge.p", 0x6F000080, 0xFF808080, "%zp, %yp, %xp", .none, instrTypePsp⟩,
   ⟨"vsge.q", 0x6F008080, 0xFF808080, "%zq, %yq, %xq", .none, instrTypePsp⟩,
   ⟨"vsge.s", 0x6F000000, 0xFF808080, "%zs, %ys, %xs", .none, instrTypePsp⟩,
   ⟨"vsge.t", 0x6F008000, 0xFF808080, "%zt, %yt, %xt", .none, instrTypePsp⟩,
   ⟨"vsgn.p", 0xD04A0080, 0xFFFF8080, "%zp, %yp", .none, instrTypePsp⟩,
   ⟨"vsgn.q", 0xD04A8080, 0xFFFF8080, "%zq, %yq", .none, instrTypePsp⟩,
   ⟨"vsgn.s", 0xD04A0000, 0xFFFF8080, "%zs, %ys", .none, instrTypePsp⟩,
   ⟨"vsgn.t", 0xD04A8000, 0xFFFF8080, "%zt, %yt", .none, instrTypePsp⟩,
   ⟨"vsin.p", 0xD0120080, 0xFFFF8080, "%zp, %yp", .none, instrTypePsp⟩,
   ⟨"vsin.q", 0xD0128080, 0xFFFF8080, "%zq, %yq", .none, instrTypePsp⟩,
   ⟨"vsin.s", 0xD0120000, 0xFFFF8080, "%zs, %ys", .none, instrTypePsp⟩,
   ⟨"vsin.t", 0xD0128000, 0xFFFF8080, "%zt, %yt", .none, instrTypePsp⟩,
   ⟨"vslt.p", 0x6F800080, 0xFF808080, "%zp, %yp, %xp", .none, instrTypePsp⟩,
   ⟨"vslt.q", 0x6F808080, 0xFF808080, "%zq, %yq, %xq", .none, instrTypePsp⟩,
   ⟨"vslt.s", 0x6F800000, 0xFF808080, "%zs, %ys, %xs", .none, instrTypePsp⟩,
   ⟨"vslt.t", 0x6F808000, 0xFF808080, "%zt, %yt, %xt", .none, instrTypePsp⟩,
   ⟨"vsocp.p", 0xD0450080, 0xFFFF8080, "%zq, %yp", .none, instrTypePsp⟩,
   ⟨"vsocp.s", 0xD0450000, 0xFFFF8080, "%zp, %ys", .none, instrTypePsp⟩,
   ⟨"vsqrt.p", 0xD0160080, 0xFFFF8080, "%zp, %yp", .none, instrTypePsp⟩,
   ⟨"vsqrt.q", 0xD0168080, 0xFFFF8080, "%zq, %yq", .none, instrTypePsp⟩,
   ⟨"vsqrt.s", 0xD0160000, 0xFFFF8080, "%zs, %ys", .none, instrTypePsp⟩,
   ⟨"vsqrt.t", 0xD0168000, 0xFFFF8080, "%zt, %yt", .none, instrTypePsp⟩,
   ⟨"vsrt1.q", 0xD0408080, 0xFFFF8080, "%zq, %yq", .none, instrTypePsp⟩,
   ⟨"vsrt2.q", 0xD0418080, 0xFFFF8080, "%zq, %yq", .none, instrTypePsp⟩,
   ⟨"vsrt3.q", 0xD0488080, 0xFFFF8080, "%zq, %yq", .none, instrTypePsp⟩,
   ⟨"vsrt4.q", 0xD0498080, 0xFFFF8080, "%zq, %yq", .none, instrTypePsp⟩,
   ⟨"vsub.p", 0x60800080, 0xFF808080, "%zp, %yp, %xp", .none, instrTypePsp⟩,
   ⟨"vsub.q", 0x60808080, 0xFF808080, "%zq, %yq, %xq", .none, instrTypePsp⟩,
   ⟨"vsub.s", 0x60800000, 0xFF808080, "%zs, %ys, %xs", .none, instrTypePsp⟩,
   ⟨"vsub.t", 0x60808000, 0xFF808080, "%zt, %yt, %xt", .none, instrTypePsp⟩,
   ⟨"vsync", 0xFFFF0000, 0xFFFF0000, "%I", .none, instrTypePsp⟩,
   ⟨"vsync", 0xFFFF0320, 0xFFFFFFFF, "", .none, instrTypePsp⟩,
   ⟨"vt4444.q", 0xD0598080, 0xFFFF8080, "%zq, %yq", .none, instrTypePsp⟩,
   ⟨"vt5551.q", 0xD05A8080, 0xFFFF8080, "%zq, %yq", .none, instrTypePsp⟩,
   ⟨"vt5650.q", 0xD05B8080, 0xFFFF8080, "%zq, %yq", .none, instrTypePsp⟩,
   ⟨"vtfm2.p", 0xF0800080, 0xFF808080, "%zp, %ym, %xp", .none, instrTypePsp⟩,
   ⟨"vtfm3.t", 0xF1008000, 0xFF808080, "%zt, %yn, %xt", .none, instrTypePsp⟩,
   ⟨"vtfm4.q", 0xF1808080, 0xFF808080, "%zq, %yo, %xq", .none, instrTypePsp⟩,
   ⟨"vus2i.p", 0xD03A0080, 0xFFFF8080, "%zq, %yp", .none, instrTypePsp⟩,
   ⟨"vus2i.s", 0xD03A0000, 0xFFFF8080, "%zp, %ys", .none, instrTypePsp⟩,
   ⟨"vwb.q", 0xF8000002, 0xFC000002, "%Xq, %Y", .none, instrTypePsp⟩,
   ⟨"vwbn.s", 0xD3000000, 0xFF008080, "%zs, %xs, %I", .none, instrTypePsp⟩,
   ⟨"vzero.p", 0xD0060080, 0xFFFFFF80, "%zp", .none, instrTypePsp⟩,
   ⟨"vzero.q", 0xD0068080, 0xFFFFFF80, "%zq", .none, instrTypePsp⟩,
   ⟨"vzero.s", 0xD0060000, 0xFFFFFF80, "%zs", .none, instrTypePsp⟩,
   ⟨"vzero.t", 0xD0068000, 0xFFFFFF80, "%zt", .none, instrTypePsp⟩,
   ⟨"mfvme", 0x68000000, 0xFC000000, "%t, %i", .none, 0⟩,
   ⟨"mtvme", 0xB0000000, 0xFC000000, "%t, %i", .none, 0⟩]

def gInst : List Instruction := mipsInst ++ (fpuInst ++ vpuInst)

end PsplinkUsb.Pspsh.InstructionTable
